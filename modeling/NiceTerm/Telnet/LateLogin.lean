/-
How often the automatic login writes a credential, and that it does not write
one when the login is over.  The queue between the reader and the loop keeps
what was decided before that.
-/
import NiceTerm.Telnet.AutoLogin

namespace NiceTerm.Telnet

open Nvt
open RustStr (Str)

namespace TelnetAutoLogin

/-- The login may still answer prompts. -/
structure Open (auto : TelnetAutoLogin) (now : Nat) : Prop where
  enabled : auto.disabled = false
  incomplete : auto.completed = false
  inTime : auto.timedOut now = false

section

variable (libraries : Libraries) (self : TelnetAutoLogin)

variable (text : Str)

/-- The view when a text has come. -/
def seen : View := (self.pushTail text).view libraries text

/-- The text is a refusal of the server. -/
def refused : Bool :=
  (self.pushTail text).matchesFailure libraries
    (self.seen libraries text).window (self.seen libraries text).lastLine

/-- The text ends in the prompt of a shell. -/
def admitted : Bool :=
  (self.pushTail text).matchesSuccess libraries
    (self.seen libraries text).lastLine

def answered (prompts : List Str) :
    TelnetAutoLogin × List TelnetAutoLoginAction :=
  (self.pushTail text).answer libraries (self.seen libraries text).window
    (self.seen libraries text).lastLine prompts

def again (self : TelnetAutoLogin) : TelnetAutoLogin :=
  { self with
    retries := self.retries + 1
    sentUsername := false
    sentPassword := false
    tail := [] }

/-- What a text can do. -/
inductive Handled (text : Str) (now : Nat) :
    TelnetAutoLogin → Except Stop (List TelnetAutoLoginAction) → Prop
  | shut (h : ¬ self.Open now) : Handled text now self (.ok [])
  | late (h : ¬ self.Open now) :
      Handled text now { self with disabled := true } (.ok [.disable])
  | panicked (h : self.Open now) (stop : Stop)
      (hprompts : (self.seen libraries text).prompts = .error stop) :
      Handled text now (self.pushTail text) (.error stop)
  | retried (h : self.Open now) (hrefused : self.refused libraries text = true)
      (hretries : self.retries < self.config.maxRetries) :
      Handled text now (self.pushTail text).again (.ok [])
  | failed (h : self.Open now) (prompts : List Str)
      (hprompts : (self.seen libraries text).prompts = .ok prompts)
      (hrefused : self.refused libraries text = true)
      (hretries : self.config.maxRetries ≤ self.retries) :
      Handled text now { self.pushTail text with disabled := true }
        (.ok [.disable])
  | answered (h : self.Open now) (prompts : List Str)
      (hprompts : (self.seen libraries text).prompts = .ok prompts)
      (hrefused : self.refused libraries text = false) :
      Handled text now (self.answered libraries text prompts).1
        (.ok (self.answered libraries text prompts).2)

theorem handled (now : Nat) :
    Handled libraries self text now (self.handleText libraries text now).1
      (self.handleText libraries text now).2 := by
  rw [handleText]
  by_cases hover : (self.disabled || self.completed) = true
  · rw [if_pos hover]
    refine .shut fun hopen => ?_
    rw [hopen.enabled, hopen.incomplete] at hover
    exact Bool.false_ne_true hover
  · rw [if_neg hover]
    rw [Bool.not_eq_true, Bool.or_eq_false_iff] at hover
    by_cases hlate : self.timedOut now = true
    · rw [if_pos hlate]
      refine .late fun hopen => ?_
      exact Bool.false_ne_true (hopen.inTime.symm.trans hlate)
    · rw [if_neg hlate]
      rw [Bool.not_eq_true] at hlate
      have hopen : self.Open now := ⟨hover.1, hover.2, hlate⟩
      have hview : (self.pushTail text).view libraries text =
          self.seen libraries text := rfl
      have hmatches : (self.pushTail text).matchesFailure libraries
          (self.seen libraries text).window (self.seen libraries text).lastLine =
            self.refused libraries text := rfl
      simp only [hview, hmatches]
      cases hprompts : (self.seen libraries text).prompts with
      | error stop => exact .panicked hopen stop hprompts
      | ok prompts =>
        simp only
        by_cases hrefused : self.refused libraries text = true
        · rw [if_pos hrefused]
          by_cases hretries : (self.pushTail text).retries <
              (self.pushTail text).config.maxRetries
          · rw [if_pos hretries]
            exact .retried hopen hrefused hretries
          · rw [if_neg hretries]
            exact .failed hopen prompts hprompts hrefused
              (Nat.le_of_not_lt hretries)
        · rw [if_neg hrefused]
          exact .answered hopen prompts hprompts
            (Bool.not_eq_true _ ▸ hrefused)

end

/-- The line has been sent since the last refusal. -/
def hasSent (self : TelnetAutoLogin) : Line → Bool
  | .wake => self.sentWake
  | .username => self.sentUsername
  | .password => self.sentPassword

/-- How often a line can have been asked for. -/
def rounds (self : TelnetAutoLogin) (line : Line) : Nat :=
  self.retries + (self.hasSent line).toNat

end TelnetAutoLogin

def TelnetAutoLoginAction.sends (line : Line) : TelnetAutoLoginAction → Bool
  | .send sent _ => sent == line
  | _ => false

/-- How many of the actions send the line. -/
def sendCount (line : Line) (actions : List TelnetAutoLoginAction) : Nat :=
  actions.countP (·.sends line)

@[simp] theorem sendCount_append (line : Line)
    (front back : List TelnetAutoLoginAction) :
    sendCount line (front ++ back) =
      sendCount line front + sendCount line back :=
  List.countP_append

namespace TelnetAutoLogin

variable {libraries : Libraries} {self next : TelnetAutoLogin}

@[simp] theorem sendCount_sendIf_self (self : TelnetAutoLogin) (sends : Bool)
    (line : Line) (value : Str) :
    sendCount line (self.sendIf sends line value) = sends.toNat := by
  cases sends <;> simp [sendIf, sendCount, TelnetAutoLoginAction.sends]

theorem sendCount_sendIf_of_ne (self : TelnetAutoLogin) (sends : Bool)
    {line other : Line} (hne : other ≠ line) (value : Str) :
    sendCount line (self.sendIf sends other value) = 0 := by
  cases sends <;> simp [sendIf, sendCount, TelnetAutoLoginAction.sends, hne]

theorem sendCount_complete (line : Line) (completes : Bool) :
    sendCount line (if completes then [.complete] else []) = 0 := by
  cases completes <;> rfl

/-- A line is sent by an answer exactly if it counts as sent from then on. -/
theorem answer_count (libraries : Libraries) (self : TelnetAutoLogin)
    (window lastLine : Str) (prompts : List Str) {line : Line}
    (hline : line ≠ .wake) :
    sendCount line (self.answer libraries window lastLine prompts).2 +
        (self.hasSent line).toNat =
      ((self.answer libraries window lastLine prompts).1.hasSent line).toNat := by
  have hor : ∀ sent sends : Bool, (sends = true → sent = false) →
      sends.toNat + sent.toNat = (sent || sends).toNat := by
    decide
  have hwake := sendCount_sendIf_of_ne self (self.sendsWake libraries window)
    hline.symm []
  simp only [answer, sendCount_append, hwake, sendCount_complete]
  cases line with
  | wake => exact absurd rfl hline
  | username =>
    rw [sendCount_sendIf_self, sendCount_sendIf_of_ne _ _ (by decide)]
    simp only [Nat.zero_add, Nat.add_zero]
    refine hor _ _ fun h => ?_
    simp only [sendsUsername, Bool.and_eq_true, Bool.not_eq_true'] at h
    exact h.1.1
  | password =>
    rw [sendCount_sendIf_self, sendCount_sendIf_of_ne _ _ (by decide)]
    simp only [Nat.zero_add, Nat.add_zero]
    refine hor _ _ fun h => ?_
    simp only [sendsPassword, Bool.and_eq_true, Bool.not_eq_true'] at h
    exact h.1.1

/-- In every round a credential is asked for at most once. -/
theorem Handled.rounds_le {text : Str} {now : Nat}
    {actions : List TelnetAutoLoginAction} {line : Line} (hline : line ≠ .wake)
    (h : Handled libraries self text now next (.ok actions)) :
    sendCount line actions + self.rounds line ≤ next.rounds line := by
  cases h with
  | shut => exact (Nat.zero_add _).le
  | late => cases line <;> exact (Nat.zero_add _).le
  | retried =>
    have hflag := Bool.toNat_le (self.hasSent line)
    have hnext : (self.pushTail text).again.rounds line = self.retries + 1 := by
      cases line with
      | wake => exact absurd rfl hline
      | username => rfl
      | password => rfl
    rw [hnext, rounds]
    exact (Nat.zero_add _).le.trans (Nat.add_le_add_left hflag _)
  | failed => cases line <;> exact (Nat.zero_add _).le
  | answered hopen prompts =>
    have hcount := answer_count libraries (self.pushTail text)
      (self.seen libraries text).window (self.seen libraries text).lastLine
      prompts hline
    have hsame : (self.pushTail text).hasSent line = self.hasSent line := by
      cases line <;> rfl
    rw [hsame] at hcount
    have hretries : (self.answered libraries text prompts).1.retries =
        self.retries := rfl
    rw [rounds, rounds, hretries, TelnetAutoLogin.answered, ← hcount]
    omega

theorem Handled.rounds_of_error {text : Str} {now : Nat} {stop : Stop}
    (h : Handled libraries self text now next (.error stop)) (line : Line) :
    next.rounds line = self.rounds line := by
  cases h with
  | panicked =>
    cases line with
    | wake => rfl
    | username => rfl
    | password => rfl

/-- A text begins another round only while one is left. -/
theorem Handled.retries_le {text : Str} {now : Nat}
    {outcome : Except Stop (List TelnetAutoLoginAction)}
    (h : Handled libraries self text now next outcome)
    (hretries : self.retries ≤ self.config.maxRetries) :
    next.config = self.config ∧ next.startedAt = self.startedAt ∧
      next.retries ≤ next.config.maxRetries := by
  cases h with
  | retried _ _ hlt => exact ⟨rfl, rfl, hlt⟩
  | shut => exact ⟨rfl, rfl, hretries⟩
  | late => exact ⟨rfl, rfl, hretries⟩
  | panicked => exact ⟨rfl, rfl, hretries⟩
  | failed => exact ⟨rfl, rfl, hretries⟩
  | answered => exact ⟨rfl, rfl, hretries⟩

end TelnetAutoLogin

namespace LoginSession

open List

variable {libraries : Libraries} {s : LoginSession}

/-- The user has written something, the time is up, or the login is complete or
has failed for good. -/
def Over (s : LoginSession) : Prop :=
  s.manual = true ∨ ¬ s.auto.Open s.now

/-- A user name or a password is in the queue. -/
def Waiting (s : LoginSession) : Prop :=
  ∃ line data, line ≠ .wake ∧ TelnetAutoLoginAction.send line data ∈ s.queue

/-- Whatever ends the login finds no credential in the queue, and a text that
completes it asks for none. -/
def Timely (libraries : Libraries) (s : LoginSession) : LoginEvent → Prop
  | .elapse nanoseconds =>
    s.auto.timedOut (s.now + nanoseconds) = true → ¬ s.Waiting
  | .write automated => automated = false → ¬ s.Waiting
  | .text text =>
    s.reading = true → ¬ s.Over →
      ∀ prompts, (s.auto.seen libraries text).prompts = .ok prompts →
        (s.auto.refused libraries text = true →
          s.auto.config.maxRetries ≤ s.auto.retries → ¬ s.Waiting) ∧
        (s.auto.refused libraries text = false →
          s.auto.admitted libraries text = true →
            s.auto.sendsUsername libraries prompts
                (s.auto.seen libraries text).lastLine = false ∧
              s.auto.sendsPassword libraries prompts = false ∧
              ((s.auto.sentUsername || s.auto.sentPassword) = true →
                ¬ s.Waiting))
  | _ => True

def AllTimely (libraries : Libraries) (s : LoginSession) :
    List LoginEvent → Prop
  | [] => True
  | event :: events =>
    (s.connected = true → s.Timely libraries event) ∧
      AllTimely libraries (s.step libraries event) events

/-- No credential is written when the login is over. -/
def Punctual (libraries : Libraries) (s : LoginSession)
    (events : List LoginEvent) : Prop :=
  ∀ w ∈ s.writes libraries events, w.2 ≠ .wake → ¬ w.1.Over

/-- How often a line is written in a run. -/
def writeCount (libraries : Libraries) (s : LoginSession)
    (events : List LoginEvent) (line : Line) : Nat :=
  ((s.writes libraries events).map Prod.snd).count line

variable {t : LoginSession}

theorem Over.congr (hauto : t.auto = s.auto) (hnow : t.now = s.now)
    (hmanual : t.manual = s.manual) : t.Over ↔ s.Over := by
  rw [Over, Over, hauto, hnow, hmanual]

theorem armTelnetStartupTimer_same (s : LoginSession) :
    s.armTelnetStartupTimer.queue = s.queue ∧ s.armTelnetStartupTimer.auto =
      s.auto ∧ s.armTelnetStartupTimer.now = s.now ∧
      s.armTelnetStartupTimer.manual = s.manual := by
  rw [armTelnetStartupTimer]
  split
  · exact ⟨rfl, rfl, rfl, rfl⟩
  · exact ⟨rfl, rfl, rfl, rfl⟩

/-- The loop takes the first action, whatever it does with it. -/
theorem takeAction_same (s : LoginSession) :
    s.takeAction.queue = s.queue.tail ∧ s.takeAction.auto = s.auto ∧
      s.takeAction.now = s.now ∧ s.takeAction.manual = s.manual := by
  rw [takeAction]
  cases hqueue : s.queue with
  | nil => exact ⟨hqueue, rfl, rfl, rfl⟩
  | cons action queue =>
    cases action with
    | send line data => exact ⟨rfl, rfl, rfl, rfl⟩
    | complete => exact armTelnetStartupTimer_same { s with queue }
    | disable => exact ⟨rfl, rfl, rfl, rfl⟩

theorem takeStartup_same (s : LoginSession) :
    s.takeStartup.queue = s.queue ∧ s.takeStartup.auto = s.auto ∧
      s.takeStartup.now = s.now ∧ s.takeStartup.manual = s.manual := by
  rw [takeStartup]
  split
  · exact ⟨rfl, rfl, rfl, rfl⟩
  · exact ⟨rfl, rfl, rfl, rfl⟩

/-- What the user writes ends the login, if it is not over. -/
theorem takeWrite_manual (s : LoginSession) :
    (s.takeWrite false).queue = s.queue ∧ (s.takeWrite false).now = s.now ∧
      (s.takeWrite false).manual = true ∧ ((s.takeWrite false).auto = s.auto ∧
          (s.auto.disabled || s.auto.completed) = true ∨
        (s.takeWrite false).auto = { s.auto with disabled := true }) := by
  rw [takeWrite, TelnetAutoLogin.handleUserInput]
  by_cases hover : (s.auto.disabled || s.auto.completed) = true
  · rw [if_neg Bool.false_ne_true, Bool.false_or, if_pos hover]
    exact ⟨rfl, rfl, rfl, .inl ⟨rfl, hover⟩⟩
  · rw [if_neg Bool.false_ne_true, Bool.false_or, if_neg hover]
    exact ⟨rfl, rfl, rfl, .inr rfl⟩

theorem readText_cases (libraries : Libraries) (s : LoginSession) (text : Str) :
    (s.readText libraries text).now = s.now ∧
      (s.readText libraries text).manual = s.manual ∧
      ∃ outcome, s.auto.Handled libraries text s.now
          (s.readText libraries text).auto outcome ∧
        (s.readText libraries text).queue = s.queue ++ outcome.toOption.getD [] := by
  have hhandled := TelnetAutoLogin.handled libraries s.auto text s.now
  rw [readText]
  cases houtcome : (s.auto.handleText libraries text s.now).2 with
  | ok actions =>
    rw [houtcome] at hhandled
    simp only [houtcome]
    exact ⟨trivial, trivial, _, hhandled, rfl⟩
  | error stop =>
    rw [houtcome] at hhandled
    simp only [houtcome]
    exact ⟨trivial, trivial, _, hhandled, (append_nil _).symm⟩

variable {line : Line}

/-- A line is written if it is taken from the queue. -/
theorem sentByAction_eq_some :
    s.sentByAction = some line ↔
      ∃ data queue, s.queue = .send line data :: queue := by
  rw [sentByAction]
  constructor
  · intro h
    split at h
    · rename_i sent data queue hqueue
      exact ⟨data, queue, Option.some.inj h ▸ hqueue⟩
    · cases h
  · rintro ⟨data, queue, hqueue⟩
    rw [hqueue]

theorem sentByAction_count (s : LoginSession) (line : Line) :
    s.sentByAction.toList.count line + sendCount line s.queue.tail =
      sendCount line s.queue := by
  rw [sentByAction]
  split
  · rename_i sent data queue hqueue
    rw [hqueue, tail_cons, sendCount, sendCount, countP_cons, Nat.add_comm]
    congr 1
    simp [TelnetAutoLoginAction.sends, count_cons]
  · rename_i hnot
    cases hqueue : s.queue with
    | nil => rfl
    | cons action queue =>
      cases action with
      | send sent data => exact absurd hqueue (hnot sent data queue)
      | complete => simp [sendCount, TelnetAutoLoginAction.sends]
      | disable => simp [sendCount, TelnetAutoLoginAction.sends]

inductive Stepped (libraries : Libraries) (s t : LoginSession) :
    LoginEvent → Prop
  | still {event : LoginEvent} (hqueue : t.queue = s.queue)
      (hauto : t.auto = s.auto) (hnow : t.now = s.now)
      (hmanual : t.manual = s.manual) (hnone : s.written event = none)
      (htimely : s.connected = true → s.Timely libraries event) :
      Stepped libraries s t event
  | elapsed (nanoseconds : Nat) (hqueue : t.queue = s.queue)
      (hauto : t.auto = s.auto) (hnow : t.now = s.now + nanoseconds)
      (hmanual : t.manual = s.manual) (hconnected : s.connected = true) :
      Stepped libraries s t (.elapse nanoseconds)
  | read (text : Str) (outcome : Except Stop (List TelnetAutoLoginAction))
      (hhandled : s.auto.Handled libraries text s.now t.auto outcome)
      (hqueue : t.queue = s.queue ++ outcome.toOption.getD [])
      (hnow : t.now = s.now) (hmanual : t.manual = s.manual)
      (hconnected : s.connected = true) (hreading : s.reading = true) :
      Stepped libraries s t (.text text)
  | took (hqueue : t.queue = s.queue.tail) (hauto : t.auto = s.auto)
      (hnow : t.now = s.now) (hmanual : t.manual = s.manual)
      (hwritten : s.written .action = s.sentByAction) :
      Stepped libraries s t .action
  | typed (hqueue : t.queue = s.queue) (hnow : t.now = s.now)
      (hmanual : t.manual = true) (hauto : t.auto = s.auto ∧
          (s.auto.disabled || s.auto.completed) = true ∨
        t.auto = { s.auto with disabled := true })
      (hconnected : s.connected = true) :
      Stepped libraries s t (.write false)

theorem stepped (libraries : Libraries) (s : LoginSession)
    (event : LoginEvent) : Stepped libraries s (s.step libraries event) event := by
  rw [step.eq_def]
  by_cases hconnected : s.connected = true
  · rw [hconnected, Bool.not_true, if_neg Bool.false_ne_true]
    cases event with
    | elapse nanoseconds => exact .elapsed nanoseconds rfl rfl rfl rfl hconnected
    | text text =>
      by_cases hreading : s.reading = true
      · obtain ⟨hnow, hmanual, outcome, hhandled, hqueue⟩ :=
          readText_cases libraries s text
        simp only [hreading, ↓reduceIte]
        exact .read text outcome hhandled hqueue hnow hmanual hconnected
          hreading
      · simp only [hreading, Bool.false_eq_true, ↓reduceIte]
        exact .still rfl rfl rfl rfl rfl fun _ h => absurd h hreading
    | action =>
      obtain ⟨hqueue, hauto, hnow, hmanual⟩ := s.takeAction_same
      refine .took hqueue hauto hnow hmanual ?_
      rw [written, if_pos hconnected]
    | startup =>
      obtain ⟨hqueue, hauto, hnow, hmanual⟩ := s.takeStartup_same
      exact .still hqueue hauto hnow hmanual rfl fun _ => trivial
    | write automated =>
      cases automated with
      | true =>
        exact .still rfl rfl rfl rfl rfl fun _ h =>
          Bool.noConfusion h
      | false =>
        obtain ⟨hqueue, hnow, hmanual, hauto⟩ := s.takeWrite_manual
        exact .typed hqueue hnow hmanual hauto hconnected
    | close => exact .still rfl rfl rfl rfl rfl fun _ => trivial
  · have hnone : s.written event = none := by
      cases event with
      | action => exact if_neg hconnected
      | _ => rfl
    rw [Bool.not_eq_true] at hconnected
    rw [hconnected]
    refine .still rfl rfl rfl rfl hnone fun h => ?_
    exact absurd (hconnected.symm.trans h) Bool.false_ne_true

variable {event : LoginEvent}

/-- What is written and what waits was waiting or is asked for in a new round. -/
theorem Stepped.count_le
    (h : Stepped libraries s t event) (hline : line ≠ .wake) :
    (s.written event).toList.count line + sendCount line t.queue +
        s.auto.rounds line ≤
      sendCount line s.queue + t.auto.rounds line := by
  cases h with
  | still hqueue hauto hnow hmanual hnone =>
    rw [hqueue, hauto, hnone]
    change 0 + _ + _ ≤ _
    rw [Nat.zero_add]
  | elapsed nanoseconds hqueue hauto =>
    rw [hqueue, hauto]
    change 0 + _ + _ ≤ _
    rw [Nat.zero_add]
  | read text outcome hhandled hqueue =>
    rw [hqueue, sendCount_append]
    cases outcome with
    | ok actions =>
      have hrounds := hhandled.rounds_le hline
      change 0 + (sendCount line s.queue + sendCount line actions) + _ ≤ _
      omega
    | error stop =>
      rw [hhandled.rounds_of_error]
      change 0 + (sendCount line s.queue + 0) + _ ≤ _
      omega
  | took hqueue hauto hnow hmanual hwritten =>
    rw [hqueue, hauto, hwritten, sentByAction_count]
  | typed hqueue hnow hmanual hauto =>
    have hrounds : t.auto.rounds line = s.auto.rounds line := by
      rcases hauto with ⟨hauto, -⟩ | hauto
      · rw [hauto]
      · rw [hauto]
        cases line <;> rfl
    rw [hqueue, hrounds]
    change 0 + _ + _ ≤ _
    rw [Nat.zero_add]

theorem Stepped.retries_le (h : Stepped libraries s t event)
    (hretries : s.auto.retries ≤ s.auto.config.maxRetries) :
    t.auto.config = s.auto.config ∧
      t.auto.retries ≤ t.auto.config.maxRetries := by
  cases h with
  | still hqueue hauto => rw [hauto]; exact ⟨rfl, hretries⟩
  | elapsed nanoseconds hqueue hauto => rw [hauto]; exact ⟨rfl, hretries⟩
  | read text outcome hhandled =>
    obtain ⟨hconfig, -, hnext⟩ := hhandled.retries_le hretries
    exact ⟨hconfig, hnext⟩
  | took hqueue hauto => rw [hauto]; exact ⟨rfl, hretries⟩
  | typed hqueue hnow hmanual hauto =>
    rcases hauto with ⟨hauto, -⟩ | hauto
    · rw [hauto]; exact ⟨rfl, hretries⟩
    · rw [hauto]; exact ⟨rfl, hretries⟩

theorem rounds_le (auto : TelnetAutoLogin) (line : Line)
    (h : auto.retries ≤ auto.config.maxRetries) :
    auto.rounds line ≤ 1 + auto.config.maxRetries := by
  have hflag := Bool.toNat_le (auto.hasSent line)
  rw [TelnetAutoLogin.rounds]
  omega

/-- What is written in a run was waiting or is asked for in a new round. -/
theorem writeCount_le (libraries : Libraries) (s : LoginSession)
    (events : List LoginEvent) (hline : line ≠ .wake)
    (hretries : s.auto.retries ≤ s.auto.config.maxRetries) :
    writeCount libraries s events line + s.auto.rounds line ≤
      sendCount line s.queue + (1 + s.auto.config.maxRetries) := by
  induction events generalizing s with
  | nil =>
    have hrounds := rounds_le s.auto line hretries
    change 0 + _ ≤ _
    omega
  | cons event events ih =>
    have hstep := stepped libraries s event
    obtain ⟨hconfig, hnext⟩ := hstep.retries_le hretries
    have hcount := hstep.count_le hline
    have hrest := ih (s.step libraries event) hnext
    rw [hconfig] at hrest
    have hsplit : writeCount libraries s (event :: events) line =
        (s.written event).toList.count line +
          writeCount libraries (s.step libraries event) events line := by
      rw [writeCount, writes, map_append, count_append]
      congr 2
      cases s.written event <;> rfl
    omega

/-- What the user has written has ended the login, and nothing secret waits
when it is over. -/
structure Settled (s : LoginSession) : Prop where
  ended : s.manual = true → (s.auto.disabled || s.auto.completed) = true
  clear : s.Over → ¬ s.Waiting

variable {auto : TelnetAutoLogin}

theorem not_open_of_ended {now : Nat}
    (h : (auto.disabled || auto.completed) = true) : ¬ auto.Open now := by
  intro hopen
  rw [hopen.enabled, hopen.incomplete] at h
  exact Bool.false_ne_true h

theorem Settled.over_iff (h : s.Settled) : s.Over ↔ ¬ s.auto.Open s.now :=
  ⟨fun hover => hover.elim (fun hmanual => not_open_of_ended (h.ended hmanual))
    id, .inr⟩

theorem Waiting.of_subset (h : t.Waiting)
    (hqueue : ∀ line data, line ≠ .wake →
      TelnetAutoLoginAction.send line data ∈ t.queue →
        TelnetAutoLoginAction.send line data ∈ s.queue) : s.Waiting := by
  obtain ⟨line, data, hline, hmem⟩ := h
  exact ⟨line, data, hline, hqueue line data hline hmem⟩

theorem mem_of_mem_append_disable {data : Bytes}
    {queue : List TelnetAutoLoginAction}
    (h : TelnetAutoLoginAction.send line data ∈ queue ++ [.disable]) :
    TelnetAutoLoginAction.send line data ∈ queue := by
  rcases mem_append.mp h with hmem | hmem
  · exact hmem
  · cases mem_singleton.mp hmem

variable {text : Str} {prompts : List Str}

/-- An answer that completes the login but asks for no credential. -/
theorem not_secret_of_answer
    {data : Bytes} (hline : line ≠ .wake)
    (husername : auto.sendsUsername libraries prompts
      (auto.seen libraries text).lastLine = false)
    (hpassword : auto.sendsPassword libraries prompts = false) :
    TelnetAutoLoginAction.send line data ∉
      (auto.answered libraries text prompts).2 := by
  intro hmem
  change _ ∈ auto.sendIf _ .wake [] ++
    auto.sendIf (auto.sendsUsername libraries prompts
      (auto.seen libraries text).lastLine) .username _ ++
    auto.sendIf (auto.sendsPassword libraries prompts) .password _ ++
    (if _ then [TelnetAutoLoginAction.complete] else []) at hmem
  rw [husername, hpassword] at hmem
  simp only [TelnetAutoLogin.sendIf, Bool.false_eq_true, ↓reduceIte,
    append_nil, mem_append] at hmem
  rcases hmem with hmem | hmem
  · split at hmem
    · rw [mem_singleton, TelnetAutoLoginAction.send.injEq] at hmem
      exact hline hmem.1
    · exact not_mem_nil hmem
  · split at hmem
    · cases mem_singleton.mp hmem
    · exact not_mem_nil hmem

/-- An answer ends the login only by completing it. -/
theorem completed_of_answered {now : Nat} (hopen : auto.Open now)
    (h : ¬ (auto.answered libraries text prompts).1.Open now) :
    auto.admitted libraries text = true ∧
      (auto.sentUsername || auto.sendsUsername libraries prompts
          (auto.seen libraries text).lastLine ||
        (auto.sentPassword || auto.sendsPassword libraries prompts)) = true := by
  by_contra hnot
  refine h ⟨hopen.enabled, ?_, hopen.inTime⟩
  change (auto.completed || (auto.sentUsername ||
      auto.sendsUsername libraries prompts (auto.seen libraries text).lastLine ||
      (auto.sentPassword || auto.sendsPassword libraries prompts)) &&
    auto.admitted libraries text) = false
  rw [hopen.incomplete, Bool.false_or, ← Bool.not_eq_true, Bool.and_eq_true]
  exact fun hboth => hnot hboth.symm

/-- A timely step leaves nothing secret waiting when the login is over. -/
theorem Stepped.settled (h : Stepped libraries s t event)
    (hsettled : s.Settled)
    (htimely : s.connected = true → s.Timely libraries event) : t.Settled := by
  cases h with
  | still hqueue hauto hnow hmanual =>
    refine ⟨?_, fun hover hwaiting => hsettled.clear ?_ ?_⟩
    · rw [hmanual, hauto]
      exact hsettled.ended
    · exact (Over.congr hauto hnow hmanual).mp hover
    · exact hwaiting.of_subset fun _ _ _ hmem => hqueue ▸ hmem
  | elapsed nanoseconds hqueue hauto hnow hmanual hconnected =>
    have hended : t.manual = true →
        (t.auto.disabled || t.auto.completed) = true := by
      rw [hmanual, hauto]
      exact hsettled.ended
    refine ⟨hended, fun hover hwaiting => ?_⟩
    have hwaiting : s.Waiting :=
      hwaiting.of_subset fun _ _ _ hmem => hqueue ▸ hmem
    have hopen : s.auto.Open s.now := by
      by_contra hnot
      exact hsettled.clear (.inr hnot) hwaiting
    refine htimely hconnected ?_ hwaiting
    by_contra hlate
    rcases hover with hmanual' | hnot
    · exact not_open_of_ended (hended hmanual') (hauto ▸ hopen)
    · rw [hauto, hnow] at hnot
      exact hnot ⟨hopen.enabled, hopen.incomplete, Bool.not_eq_true _ ▸ hlate⟩
  | read text outcome hhandled hqueue hnow hmanual hconnected hreading =>
    have htext := htimely hconnected hreading
    generalize hauto : t.auto = next at hhandled
    -- a text that is answered or refused finds the login open
    have hnotOver : ∀ hopen : s.auto.Open s.now, ¬ s.Over :=
      fun hopen hover => hsettled.over_iff.mp hover hopen
    have hstays : ∀ hopen : s.auto.Open s.now, ¬ t.manual = true := by
      intro hopen h
      rw [hmanual] at h
      exact not_open_of_ended (hsettled.ended h) hopen
    cases hhandled with
    | shut hnot =>
      refine ⟨?_, fun _ hwaiting => hsettled.clear (.inr hnot) ?_⟩
      · rw [hmanual, hauto]
        exact hsettled.ended
      · refine hwaiting.of_subset fun _ _ _ hmem => ?_
        rw [hqueue] at hmem
        exact (append_nil s.queue) ▸ hmem
    | late hnot =>
      refine ⟨fun _ => ?_, fun _ hwaiting =>
        hsettled.clear (.inr hnot) (hwaiting.of_subset fun _ _ _ hmem =>
          mem_of_mem_append_disable (hqueue ▸ hmem))⟩
      rw [hauto]
      exact Bool.true_or _
    | panicked hopen stop =>
      refine ⟨fun h => absurd h (hstays hopen), fun hover _ => ?_⟩
      refine hover.elim (hstays hopen) fun hnot => hnot ?_
      rw [hauto, hnow]
      exact ⟨hopen.enabled, hopen.incomplete, hopen.inTime⟩
    | retried hopen =>
      refine ⟨fun h => absurd h (hstays hopen), fun hover _ => ?_⟩
      refine hover.elim (hstays hopen) fun hnot => hnot ?_
      rw [hauto, hnow]
      exact ⟨hopen.enabled, hopen.incomplete, hopen.inTime⟩
    | failed hopen prompts hprompts hrefused hretries =>
      refine ⟨fun _ => ?_, fun _ hwaiting =>
        (htext (hnotOver hopen) prompts hprompts).1 hrefused hretries
          (hwaiting.of_subset fun _ _ _ hmem =>
          mem_of_mem_append_disable (hqueue ▸ hmem))⟩
      rw [hauto]
      exact Bool.true_or _
    | answered hopen prompts hprompts hrefused =>
      refine ⟨fun h => absurd h (hstays hopen), fun hover hwaiting => ?_⟩
      have hclosed := hover.resolve_left (hstays hopen)
      rw [hauto, hnow] at hclosed
      obtain ⟨hadmitted, hsent⟩ := completed_of_answered hopen hclosed
      obtain ⟨husername, hpassword, hclear⟩ :=
        (htext (hnotOver hopen) prompts hprompts).2 hrefused hadmitted
      rw [husername, hpassword, Bool.or_false, Bool.or_false] at hsent
      refine hclear hsent (hwaiting.of_subset ?_)
      intro line data hline hmem
      rw [hqueue] at hmem
      rcases mem_append.mp hmem with hmem | hmem
      · exact hmem
      · exact absurd hmem (not_secret_of_answer hline husername hpassword)
  | took hqueue hauto hnow hmanual =>
    refine ⟨?_, fun hover hwaiting => hsettled.clear ?_ ?_⟩
    · rw [hmanual, hauto]
      exact hsettled.ended
    · exact (Over.congr hauto hnow hmanual).mp hover
    · refine hwaiting.of_subset fun _ _ _ hmem => ?_
      rw [hqueue] at hmem
      exact mem_of_mem_tail hmem
  | typed hqueue hnow hmanual hauto hconnected =>
    refine ⟨fun _ => ?_, fun _ hwaiting => htimely hconnected rfl ?_⟩
    · rcases hauto with ⟨hauto, hended⟩ | hauto
      · rw [hauto]
        exact hended
      · rw [hauto]
        exact Bool.true_or _
    · exact hwaiting.of_subset fun _ _ _ hmem => hqueue ▸ hmem

/-- A line that is written was the first in the queue. -/
theorem waiting_of_written
    (h : s.written event = some line) (hline : line ≠ .wake) : s.Waiting := by
  cases event with
  | action =>
    rw [written] at h
    split at h
    · obtain ⟨data, queue, hqueue⟩ := sentByAction_eq_some.mp h
      exact ⟨line, data, hline, by rw [hqueue]; exact mem_cons_self⟩
    · cases h
  | _ => cases h

theorem mem_writes_cons {events : List LoginEvent} {w : LoginSession × Line} :
    w ∈ s.writes libraries (event :: events) ↔
      (w.1 = s ∧ s.written event = some w.2) ∨
        w ∈ (s.step libraries event).writes libraries events := by
  rw [writes, mem_append, mem_map]
  refine or_congr_left ⟨?_, ?_⟩
  · rintro ⟨line, hline, rfl⟩
    exact ⟨rfl, Option.mem_toList.mp hline⟩
  · rintro ⟨hstate, hwritten⟩
    exact ⟨w.2, Option.mem_toList.mpr hwritten, by rw [← hstate]⟩

variable (events : List LoginEvent)

/-- Timely runs write no credential when the login is over. -/
theorem punctual_of_timely (hsettled : s.Settled)
    (htimely : s.AllTimely libraries events) : s.Punctual libraries events := by
  induction events generalizing s with
  | nil => exact fun w hmem => absurd hmem not_mem_nil
  | cons event events ih =>
    intro w hmem hline
    rcases mem_writes_cons.mp hmem with ⟨rfl, hwritten⟩ | hlater
    · exact fun hover =>
        hsettled.clear hover (waiting_of_written hwritten hline)
    · exact ih ((stepped libraries s event).settled hsettled htimely.1)
        htimely.2 w hlater hline

theorem Stepped.stays_over
    (h : Stepped libraries s t event) (hover : s.Over) : t.Over := by
  cases h with
  | still hqueue hauto hnow hmanual =>
    exact (Over.congr hauto hnow hmanual).mpr hover
  | elapsed nanoseconds hqueue hauto hnow hmanual =>
    refine hover.imp hmanual.trans fun hnot hopen => hnot ?_
    rw [hauto, hnow] at hopen
    refine ⟨hopen.enabled, hopen.incomplete, ?_⟩
    have hlate := hopen.inTime
    rw [TelnetAutoLogin.timedOut, decide_eq_false_iff_not] at hlate ⊢
    omega
  | read text outcome hhandled hqueue hnow hmanual =>
    refine hover.imp hmanual.trans fun hnot => ?_
    rw [hnow]
    generalize t.auto = next at hhandled
    cases hhandled with
    | shut => exact hnot
    | late => exact not_open_of_ended (Bool.true_or _)
    | panicked hopen => exact absurd hopen hnot
    | retried hopen => exact absurd hopen hnot
    | failed hopen => exact absurd hopen hnot
    | answered hopen => exact absurd hopen hnot
  | took hqueue hauto hnow hmanual =>
    exact (Over.congr hauto hnow hmanual).mpr hover
  | typed hqueue hnow hmanual => exact .inl hmanual

theorem Stepped.waiting
    (h : Stepped libraries s t event) (hwaiting : s.Waiting) :
    (∃ line, line ≠ .wake ∧ s.written event = some line) ∨ t.Waiting := by
  obtain ⟨line, data, hline, hmem⟩ := hwaiting
  cases h with
  | still hqueue => exact .inr ⟨line, data, hline, hqueue.symm ▸ hmem⟩
  | elapsed _ hqueue => exact .inr ⟨line, data, hline, hqueue.symm ▸ hmem⟩
  | read _ _ _ hqueue =>
    refine .inr ⟨line, data, hline, ?_⟩
    rw [hqueue]
    exact mem_append_left _ hmem
  | took hqueue hauto hnow hmanual hwritten =>
    cases hs : s.queue with
    | nil => exact absurd (hs ▸ hmem) not_mem_nil
    | cons action queue =>
      rw [hs] at hmem
      rcases mem_cons.mp hmem with rfl | hmem
      · refine .inl ⟨line, hline, ?_⟩
        rw [hwritten]
        exact sentByAction_eq_some.mpr ⟨data, queue, hs⟩
      · refine .inr ⟨line, data, hline, ?_⟩
        rw [hqueue, hs]
        exact hmem
  | typed hqueue => exact .inr ⟨line, data, hline, hqueue.symm ▸ hmem⟩

/-- What waits when the login is over is written late, once the queue is
empty. -/
theorem late_write (hover : s.Over)
    (hwaiting : s.Waiting) (hempty : (s.exec libraries events).queue = []) :
    ¬ s.Punctual libraries events := by
  induction events generalizing s with
  | nil =>
    obtain ⟨line, data, -, hmem⟩ := hwaiting
    rw [exec] at hempty
    rw [hempty] at hmem
    exact absurd hmem not_mem_nil
  | cons event events ih =>
    intro hpunctual
    have hstep := stepped libraries s event
    rcases hstep.waiting hwaiting with ⟨line, hline, hwritten⟩ | hnext
    · exact hpunctual (s, line)
        (mem_writes_cons.mpr (.inl ⟨rfl, hwritten⟩)) hline hover
    · refine ih (hstep.stays_over hover) hnext hempty fun w hmem => ?_
      exact hpunctual w (mem_writes_cons.mpr (.inr hmem))

theorem secret_of_answer
    (h : auto.sendsUsername libraries prompts
        (auto.seen libraries text).lastLine = true ∨
      auto.sendsPassword libraries prompts = true) :
    ∃ line data, line ≠ .wake ∧ TelnetAutoLoginAction.send line data ∈
      (auto.answered libraries text prompts).2 := by
  have hanswer : (auto.answered libraries text prompts).2 = auto.sendIf _ .wake
      [] ++ auto.sendIf (auto.sendsUsername libraries prompts
        (auto.seen libraries text).lastLine) .username _ ++
      auto.sendIf (auto.sendsPassword libraries prompts) .password _ ++
      (if _ then [TelnetAutoLoginAction.complete] else []) := rfl
  rw [hanswer]
  rcases h with h | h
  · rw [h]
    refine ⟨.username, lineBytes auto.credentials.username auto.enterMode,
      by decide, ?_⟩
    exact mem_append_left _ (mem_append_left _
      (mem_append_right _ mem_cons_self))
  · rw [h]
    refine ⟨.password, lineBytes (auto.credentials.password.getD [])
      auto.enterMode, by decide, ?_⟩
    exact mem_append_left _ (mem_append_right _ mem_cons_self)

theorem closed_of_answered {now : Nat}
    (hadmitted : auto.admitted libraries text = true)
    (hsent : (auto.sentUsername || auto.sendsUsername libraries prompts
          (auto.seen libraries text).lastLine ||
        (auto.sentPassword || auto.sendsPassword libraries prompts)) = true) :
    ¬ (auto.answered libraries text prompts).1.Open now := by
  refine not_open_of_ended ?_
  change (auto.disabled || (auto.completed || (auto.sentUsername ||
      auto.sendsUsername libraries prompts (auto.seen libraries text).lastLine ||
      (auto.sentPassword || auto.sendsPassword libraries prompts)) &&
    auto.admitted libraries text)) = true
  rw [hadmitted, hsent]
  simp

/-- A text that is not timely ends the login while a credential waits or is
asked for. -/
theorem ends_of_untimely {waiting : Prop} {next : TelnetAutoLogin}
    {now : Nat}
    {outcome : Except Stop (List TelnetAutoLoginAction)}
    (hopen : auto.Open now)
    (hnot : ¬ ∀ prompts, (auto.seen libraries text).prompts = .ok prompts →
      (auto.refused libraries text = true →
        auto.config.maxRetries ≤ auto.retries → ¬ waiting) ∧
      (auto.refused libraries text = false →
        auto.admitted libraries text = true →
          auto.sendsUsername libraries prompts
              (auto.seen libraries text).lastLine = false ∧
            auto.sendsPassword libraries prompts = false ∧
            ((auto.sentUsername || auto.sentPassword) = true → ¬ waiting)))
    (h : auto.Handled libraries text now next outcome) :
    ¬ next.Open now ∧ (waiting ∨ ∃ line data, line ≠ .wake ∧
      TelnetAutoLoginAction.send line data ∈ outcome.toOption.getD []) := by
  cases h with
  | shut hclosed => exact absurd hopen hclosed
  | late hclosed => exact absurd hopen hclosed
  | panicked _ stop hprompts =>
    refine absurd (fun prompts hok => ?_) hnot
    rw [hprompts] at hok
    cases hok
  | retried _ hrefused hretries =>
    refine absurd (fun prompts _ => ⟨fun _ hle => ?_, fun h => ?_⟩) hnot
    · exact absurd hle (Nat.not_le_of_lt hretries)
    · exact absurd (hrefused.symm.trans h) Bool.false_ne_true.symm
  | failed _ prompts hprompts hrefused =>
    refine ⟨not_open_of_ended (Bool.true_or _), .inl ?_⟩
    by_contra hclear
    refine hnot fun prompts _ => ⟨fun _ _ => hclear, fun h => ?_⟩
    exact absurd (hrefused.symm.trans h) Bool.false_ne_true.symm
  | answered _ prompts hprompts hrefused =>
    obtain ⟨prompts', hnot⟩ := not_forall.mp hnot
    obtain ⟨hprompts', hnot⟩ := Classical.not_imp.mp hnot
    obtain rfl := Except.ok.inj (hprompts.symm.trans hprompts')
    have hadmitted : auto.admitted libraries text = true := by
      by_contra hclear
      refine hnot ⟨fun h => ?_, fun _ h => absurd h hclear⟩
      exact absurd (h.symm.trans hrefused) Bool.false_ne_true.symm
    by_cases hasks : auto.sendsUsername libraries prompts
        (auto.seen libraries text).lastLine = true ∨
      auto.sendsPassword libraries prompts = true
    · refine ⟨closed_of_answered hadmitted ?_, .inr (secret_of_answer hasks)⟩
      rcases hasks with husername | hpassword
      · rw [husername, Bool.or_true, Bool.true_or]
      · rw [hpassword, Bool.or_true, Bool.or_true]
    · rw [not_or, Bool.not_eq_true, Bool.not_eq_true] at hasks
      by_cases hsent : (auto.sentUsername || auto.sentPassword) = true
      · refine ⟨closed_of_answered hadmitted ?_, .inl ?_⟩
        · rw [hasks.1, hasks.2, Bool.or_false, Bool.or_false, hsent]
        · by_contra hclear
          refine hnot ⟨fun h => ?_, fun _ _ => ⟨hasks.1, hasks.2, fun _ =>
            hclear⟩⟩
          exact absurd (h.symm.trans hrefused) Bool.false_ne_true.symm
      · refine absurd ⟨fun h => ?_, fun _ _ => ⟨hasks.1, hasks.2, fun h =>
          absurd h hsent⟩⟩ hnot
        exact absurd (h.symm.trans hrefused) Bool.false_ne_true.symm

/-- A step that is not timely leaves a credential behind when the login is
over. -/
theorem Stepped.over_waiting (h : Stepped libraries s t event)
    (hnot : ¬ (s.connected = true → s.Timely libraries event)) :
    t.Over ∧ t.Waiting := by
  have huntimely := (Classical.not_imp.mp hnot).2
  cases h with
  | still hqueue hauto hnow hmanual hnone htimely => exact absurd htimely hnot
  | elapsed nanoseconds hqueue hauto hnow =>
    obtain ⟨hlate, hwaiting⟩ := Classical.not_imp.mp huntimely
    refine ⟨.inr fun hopen => ?_, (not_not.mp hwaiting).of_subset ?_⟩
    · rw [hauto, hnow] at hopen
      exact Bool.false_ne_true (hopen.inTime.symm.trans hlate)
    · exact fun _ _ _ hmem => hqueue.symm ▸ hmem
  | read text outcome hhandled hqueue hnow hmanual hconnected hreading =>
    rw [Timely, Classical.not_imp, Classical.not_imp] at huntimely
    obtain ⟨-, hnotOver, hends⟩ := huntimely
    have hopen : s.auto.Open s.now := by
      by_contra hclosed
      exact hnotOver (.inr hclosed)
    obtain ⟨hclosed, hthere⟩ := ends_of_untimely hopen hends hhandled
    rw [← hnow] at hclosed
    refine ⟨.inr hclosed, ?_⟩
    rcases hthere with hwaiting | ⟨line, data, hline, hmem⟩
    · refine hwaiting.of_subset fun _ _ _ hmem => ?_
      rw [hqueue]
      exact mem_append_left _ hmem
    · refine ⟨line, data, hline, ?_⟩
      rw [hqueue]
      exact mem_append_right _ hmem
  | took => exact absurd trivial huntimely
  | typed hqueue hnow hmanual =>
    have hwaiting := (Classical.not_imp.mp huntimely).2
    exact ⟨.inl hmanual, (not_not.mp hwaiting).of_subset
      fun _ _ _ hmem => hqueue.symm ▸ hmem⟩

/-- In runs that take everything from the queue, only timely runs write no
credential when the login is over. -/
theorem timely_of_punctual (hpunctual : s.Punctual libraries events)
    (hempty : (s.exec libraries events).queue = []) :
    s.AllTimely libraries events := by
  induction events generalizing s with
  | nil => exact trivial
  | cons event events ih =>
    have hnext : (s.step libraries event).Punctual libraries events :=
      fun w hmem => hpunctual w (mem_writes_cons.mpr (.inr hmem))
    refine ⟨?_, ih hnext hempty⟩
    by_contra hnot
    obtain ⟨hover, hwaiting⟩ :=
      (stepped libraries s event).over_waiting hnot
    exact late_write events hover hwaiting hempty hnext

/-- A new session, with its command for the start. -/
def start (config : TelnetAutoLoginConfig)
    (credentials : TelnetAutoLoginCredentials) (enterMode : TelnetEnterMode)
    (startedAt now : Nat) (pendingStartup : Option (Bytes × Nat)) :
    LoginSession where
  auto := { config, credentials, enterMode, startedAt }
  pendingStartup
  now

/-- A credential is written at most once and once more for each retry.  None is
written when the login is over in the runs whose steps are timely, and among
those that empty the queue in no others. -/
theorem login_discreet (libraries : Libraries) (config : TelnetAutoLoginConfig)
    (credentials : TelnetAutoLoginCredentials) (enterMode : TelnetEnterMode)
    (startedAt now : Nat) (pendingStartup : Option (Bytes × Nat))
    (events : List LoginEvent) :
    (∀ line, line ≠ .wake → writeCount libraries
          (start config credentials enterMode startedAt now pendingStartup)
          events line ≤ 1 + config.maxRetries) ∧
      ((start config credentials enterMode startedAt now
          pendingStartup).AllTimely libraries events →
        (start config credentials enterMode startedAt now
          pendingStartup).Punctual libraries events) ∧
      (((start config credentials enterMode startedAt now
          pendingStartup).exec libraries events).queue = [] →
        (start config credentials enterMode startedAt now
          pendingStartup).Punctual libraries events →
        (start config credentials enterMode startedAt now
          pendingStartup).AllTimely libraries events) := by
  refine ⟨fun line hline => ?_, punctual_of_timely events ⟨?_, ?_⟩, ?_⟩
  · exact (Nat.le_add_right _ _).trans ((writeCount_le libraries _ events hline
      (Nat.zero_le _)).trans (Nat.zero_add _).le)
  · exact fun h => absurd h Bool.false_ne_true
  · rintro - ⟨line, data, -, hmem⟩
    exact not_mem_nil hmem
  · exact fun hempty hpunctual =>
      timely_of_punctual events hpunctual hempty

/-- Libraries in which only the pattern `login:` matches, and only itself. -/
def loginOnly : Libraries where
  unicode := wideLowercase
  stripStr := id
  regex := fun pattern => some fun text =>
    pattern == "login:".toList && text == "login:".toList

/-- The user name is written behind what the user has typed. -/
theorem username_after_input :
    ¬ (start { usernamePromptRegex := some "login:".toList }
        { username := "admin".toList, password := none } .crlf 0 0
        none).Punctual loginOnly
      [.text "login:".toList, .write false, .action] := by
  intro h
  have hwrites : ((start { usernamePromptRegex := some "login:".toList }
      { username := "admin".toList, password := none } .crlf 0 0 none).writes
        loginOnly [.text "login:".toList, .write false, .action]).map
          (fun w => (w.1.manual, w.2)) = [(true, .username)] := by
    decide +kernel
  obtain ⟨w, rest, hlist, hw, -⟩ := map_eq_cons_iff.mp hwrites
  obtain ⟨hmanual, hline⟩ := Prod.mk.inj hw
  refine h w (hlist ▸ mem_cons_self) ?_ (.inl hmanual)
  rw [hline]
  decide

end LoginSession

end NiceTerm.Telnet
