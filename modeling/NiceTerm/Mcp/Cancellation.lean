/-
Cancelling requests.  All connections share one map from the ids that their
clients have chosen to the tokens of the running requests, and a connection
reads its next line only when its request has completed: a client sends a cancel
on a connection of its own.
-/
import NiceTerm.Lib.Keyed
import NiceTerm.Lib.RustStr
import NiceTerm.Lib.Transition

namespace NiceTerm.Mcp.Cancellation

open Keyed List Option Transition
open RustStr (Str)

/-- A line that a client has sent.  Each `capability.execute` has a number of
its own, which stands for the token that it gets; `aimedAt` are the requests
that a cancel was sent for. -/
inductive Line where
  | execute (requestId : Option Str) (token : Nat)
  | cancel (requestId : Str) (aimedAt : List Nat)
  deriving DecidableEq, Repr

/-- A request that is being executed. -/
structure Running where
  requestId : Option Str
  token : Nat
  deriving DecidableEq, Repr

structure Connection where
  generation : Str
  inbox : List Line
  running : Option Running
  deriving DecidableEq, Repr

/-- An entry of `request_cancellations`. -/
structure Registered where
  id : Str
  generation : Str
  token : Nat
  deriving DecidableEq, Repr

structure Host where
  requestCancellations : List Registered
  connections : Nat → Option Connection
  cancelled : List Nat
  nextToken : Nat

/-- `insert` of a request that has an id. -/
def insertToken (generation : Str) (token : Nat) (map : List Registered) :
    Option Str → List Registered
  | none => map
  | some id =>
    map.filter (fun other => other.id ≠ id) ++ [⟨id, generation, token⟩]

/-- `remove` of a request that has an id. -/
def removeToken (map : List Registered) : Option Str → List Registered
  | none => map
  | some id => map.filter fun other => other.id ≠ id

/-- `get(id).filter(..)` of `request.cancel`. -/
def matching (generation id : Str) (map : List Registered) : List Nat :=
  ((find Registered.id map id).filter fun entry =>
    entry.generation = generation).toList.map Registered.token

def Line.tokenWith (id : Str) : Line → Option Nat
  | .execute requestId token =>
    if requestId = some id then some token else none
  | .cancel _ _ => none

/-- The requests with this id that the client has sent and that have not been
completed. -/
def Connection.inFlight (connection : Connection) (id : Str) : List Nat :=
  ((connection.running.filter fun request =>
      request.requestId = some id).toList.map Running.token) ++
    connection.inbox.filterMap (Line.tokenWith id)

inductive Event where
  | connect (connection : Nat) (generation : Str)
  | sendExecute (connection : Nat) (requestId : Option Str)
  | sendCancel (connection : Nat) (requestId : Str)
  | handle (connection : Nat)
  | complete (connection : Nat)
  | disconnect (connection : Nat)
  deriving DecidableEq, Repr

namespace Host

def put (host : Host) (c : Nat) (connection : Connection) : Host :=
  { host with connections := Function.update host.connections c connection }

/-- `handle_request` up to the execution of a tool. -/
def handleLine (host : Host) (c : Nat) (connection : Connection)
    (rest : List Line) : Line → Host
  | .execute requestId token =>
    { host.put c { connection with
        inbox := rest, running := some ⟨requestId, token⟩ } with
      requestCancellations := insertToken connection.generation token
        host.requestCancellations requestId }
  | .cancel requestId _ =>
    { host.put c { connection with inbox := rest } with
      cancelled := host.cancelled ++ matching connection.generation requestId
        host.requestCancellations }

def handle (host : Host) (c : Nat) (connection : Connection) : Option Host :=
  match connection.running, connection.inbox with
  | none, line :: rest => some (host.handleLine c connection rest line)
  | _, _ => none

def complete (host : Host) (c : Nat) (connection : Connection) : Option Host :=
  connection.running.map fun request =>
    { host.put c { connection with running := none } with
      requestCancellations :=
        removeToken host.requestCancellations request.requestId }

def send (host : Host) (c : Nat) (connection : Connection) (line : Line) :
    Host :=
  host.put c { connection with inbox := connection.inbox ++ [line] }

def step (host : Host) : Event → Option Host
  | .connect c generation =>
    if (host.connections c).isSome then none
    else some (host.put c ⟨generation, [], none⟩)
  | .sendExecute c requestId =>
    (host.connections c).map fun connection =>
      { host.send c connection (.execute requestId host.nextToken) with
        nextToken := host.nextToken + 1 }
  | .sendCancel c requestId =>
    (host.connections c).map fun connection =>
      host.send c connection
        (.cancel requestId (connection.inFlight requestId))
  | .handle c => (host.connections c).bind (host.handle c)
  | .complete c => (host.connections c).bind (host.complete c)
  | .disconnect c =>
    (host.connections c).bind fun connection =>
      if connection.running.isSome then none
      else some { host with
        connections := Function.update host.connections c none }

def fresh : Host := ⟨[], fun _ => none, [], 0⟩

end Host

def cancelling : System Host Event where
  init host := host = Host.fresh
  step := Host.step

/-- Connection `c` executes a request with this id and token. -/
def Runs (host : Host) (c : Nat) (generation id : Str) (token : Nat) : Prop :=
  ∃ connection, host.connections c = some connection ∧ connection.generation =
    generation ∧ connection.running = some ⟨some id, token⟩

/-- A cancel cancels the requests that it was sent for and no others. -/
def CancelsItsRequests (host : Host) (event : Event) : Prop :=
  ∀ c connection id aimedAt rest after, event = .handle c → host.connections c
    = some connection → connection.inbox = .cancel id aimedAt :: rest →
    cancelling.step host event = some after → ∀ token, token ∈ after.cancelled
    ↔
      token ∈ host.cancelled ∨ token ∈ aimedAt

/-- A completion leaves the tokens of the other running requests. -/
def KeepsOtherTokens (host : Host) (event : Event) : Prop :=
  ∀ c connection request after, event = .complete c → host.connections c = some
    connection → connection.running = some request → cancelling.step host event
    = some after → ∀ entry ∈ host.requestCancellations, entry.token ≠
    request.token →
      (∃ other, Runs host other entry.generation entry.id entry.token) →
      entry ∈ after.requestCancellations

def HitsItsRequest (host : Host) (event : Event) : Prop :=
  CancelsItsRequests host event ∧ KeepsOtherTokens host event

/-- What a cancel cancels is executed under its id, on a connection of its
generation. -/
def CancelsRunning (host : Host) (event : Event) : Prop :=
  ∀ c connection id aimedAt rest after, event = .handle c → host.connections c
    = some connection → connection.inbox = .cancel id aimedAt :: rest →
    cancelling.step host event = some after → ∀ token ∈ after.cancelled,
      token ∈ host.cancelled ∨
        ∃ other, Runs host other connection.generation id token

/-- A cancel cancels everything that is executed under its id on a connection of
its generation. -/
def CancelsEvery (host : Host) (event : Event) : Prop :=
  ∀ c connection id aimedAt rest after, event = .handle c → host.connections c
    = some connection → connection.inbox = .cancel id aimedAt :: rest →
    cancelling.step host event = some after → ∀ token ∉ after.cancelled,
      token ∉ host.cancelled ∧
        ∀ other, ¬ Runs host other connection.generation id token

/-- No request begins under an id that another connection executes one under:
the clients choose random ids. -/
def FreshId (host : Host) : Event → Prop
  | .handle c =>
    ∀ connection id token rest, host.connections c = some connection →
      connection.inbox = .execute (some id) token :: rest →
      ∀ other generation otherToken,
        ¬ Runs host other generation id otherToken
  | _ => True

/-! ## What a step does -/

variable {host after : Host} {c : Nat} {connection : Connection}

theorem runs_put_of_ne {other : Nat} (h : other ≠ c)
    (connection : Connection) {generation id : Str} {token : Nat} :
    Runs (host.put c connection) other generation id token ↔
      Runs host other generation id token := by
  simp only [Runs, Host.put, Function.update_of_ne h]

theorem runs_put_self {generation id : Str} {token : Nat} :
    Runs (host.put c connection) c generation id token ↔
      connection.generation = generation ∧
        connection.running = some ⟨some id, token⟩ := by
  simp [Runs, Host.put]

theorem runs_iff (h : host.connections c = some connection)
    {generation id : Str} {token : Nat} :
    Runs host c generation id token ↔ connection.generation = generation ∧
        connection.running = some ⟨some id, token⟩ := by
  simp [Runs, h]

/-- What is executed on a connection that stays or was not executing. -/
theorem runs_update {next : Option Connection}
    (h : ∀ generation id token,
      (∃ connection, next = some connection ∧ connection.generation = generation
        ∧ connection.running = some ⟨some id, token⟩) ↔
      Runs host c generation id token)
    {map : List Registered} {cancelled : List Nat} {nextToken other : Nat}
    {generation id : Str} {token : Nat} :
    Runs ⟨map, Function.update host.connections c next, cancelled, nextToken⟩
        other generation id token ↔
      Runs host other generation id token := by
  by_cases hsame : other = c
  · subst hsame
    rw [← h]
    simp only [Runs, Function.update_self]
  · simp only [Runs, Function.update_of_ne hsame]

theorem handle_cases (h : host.step (.handle c) = some after) :
    ∃ connection line rest, host.connections c = some connection ∧
      connection.running = none ∧ connection.inbox = line :: rest ∧
      after = host.handleLine c connection rest line := by
  obtain ⟨connection, hconnection, hhandle⟩ := bind_eq_some_iff.mp h
  cases hrunning : connection.running with
  | some request => simp [Host.handle, hrunning] at hhandle
  | none =>
    cases hinbox : connection.inbox with
    | nil => simp [Host.handle, hrunning, hinbox] at hhandle
    | cons line rest =>
      simp only [Host.handle, hrunning, hinbox, some.injEq]
        at hhandle
      exact ⟨connection, line, rest, hconnection, hrunning, hinbox,
        hhandle.symm⟩

theorem complete_cases (h : host.step (.complete c) = some after) :
    ∃ connection request, host.connections c = some connection ∧
      connection.running = some request ∧
      after = { host.put c { connection with running := none } with
        requestCancellations :=
          removeToken host.requestCancellations request.requestId } := by
  obtain ⟨connection, hconnection, hcomplete⟩ := bind_eq_some_iff.mp h
  obtain ⟨request, hrunning, rfl⟩ := map_eq_some_iff.mp hcomplete
  exact ⟨connection, request, hconnection, hrunning, rfl⟩

/-- The map and what is executed change only when a request begins or
completes. -/
theorem step_cases {event : Event}
    (h : cancelling.step host event = some after) :
    (after.requestCancellations = host.requestCancellations ∧
      ∀ other generation id token, Runs after other generation id token ↔
        Runs host other generation id token) ∨
    (∃ c connection requestId token rest, event = .handle c ∧
      host.connections c = some connection ∧ connection.running = none ∧
      connection.inbox = .execute requestId token :: rest ∧
      after =
        host.handleLine c connection rest (.execute requestId token)) ∨
    ∃ c connection request, event = .complete c ∧
      host.connections c = some connection ∧
      connection.running = some request ∧
      after = { host.put c { connection with running := none } with
        requestCancellations :=
          removeToken host.requestCancellations request.requestId } := by
  cases event with
  | connect c generation =>
    cases hconnection : host.connections c with
    | some connection => simp [cancelling, Host.step, hconnection] at h
    | none =>
      simp only [cancelling, Host.step, hconnection, isSome_none,
        Bool.false_eq_true, ↓reduceIte, some.injEq] at h
      subst h
      refine .inl ⟨rfl, fun other _ _ _ => runs_update fun _ _ _ => ?_⟩
      simp [Runs, hconnection]
  | sendExecute c requestId =>
    obtain ⟨connection, hconnection, rfl⟩ := map_eq_some_iff.mp h
    refine .inl ⟨rfl, fun other _ _ _ => runs_update fun _ _ _ => ?_⟩
    simp [Runs, hconnection]
  | sendCancel c requestId =>
    obtain ⟨connection, hconnection, rfl⟩ := map_eq_some_iff.mp h
    refine .inl ⟨rfl, fun other _ _ _ => runs_update fun _ _ _ => ?_⟩
    simp [Runs, hconnection]
  | handle c =>
    obtain ⟨connection, line, rest, hconnection, hidle, hinbox, rfl⟩ :=
      handle_cases h
    cases line with
    | execute requestId token =>
      exact .inr (.inl ⟨c, connection, requestId, token, rest, rfl, hconnection,
        hidle, hinbox, rfl⟩)
    | cancel requestId aimedAt =>
      refine .inl ⟨rfl, fun other _ _ _ => runs_update fun _ _ _ => ?_⟩
      simp [Runs, hconnection]
  | complete c =>
    obtain ⟨connection, request, hconnection, hrunning, rfl⟩ :=
      complete_cases h
    exact .inr (.inr ⟨c, connection, request, rfl, hconnection, hrunning, rfl⟩)
  | disconnect c =>
    obtain ⟨connection, hconnection, hdrop⟩ := bind_eq_some_iff.mp h
    cases hrunning : connection.running with
    | some request => simp [hrunning] at hdrop
    | none =>
      simp only [hrunning, isSome_none, Bool.false_eq_true,
        ↓reduceIte, some.injEq] at hdrop
      subst hdrop
      refine .inl ⟨rfl, fun other _ _ _ => runs_update fun _ _ _ => ?_⟩
      simp [Runs, hconnection, hrunning]

/-! ## The map and the running requests -/

variable {map : List Registered}

theorem mem_removeToken {requestId : Option Str} {entry : Registered} :
    entry ∈ removeToken map requestId ↔
      entry ∈ map ∧ requestId ≠ some entry.id := by
  cases requestId with
  | none => simp [removeToken]
  | some id =>
    rw [removeToken, mem_filter, decide_eq_true_eq, ne_comm]
    simp

theorem mem_insertToken {generation : Str} {token : Nat}
    {requestId : Option Str} {entry : Registered} :
    entry ∈ insertToken generation token map requestId ↔
      (entry ∈ map ∧ requestId ≠ some entry.id) ∨
        requestId = some entry.id ∧ entry.generation = generation ∧
          entry.token = token := by
  cases requestId with
  | none => simp [insertToken]
  | some id =>
    rw [insertToken, mem_append, mem_filter, mem_singleton, decide_eq_true_eq]
    cases entry
    simp [eq_comm]

theorem mem_matching {generation id : Str}
    {token : Nat} (h : token ∈ matching generation id map) :
    ∃ entry ∈ map, entry.id = id ∧ entry.generation = generation ∧
      entry.token = token := by
  obtain ⟨entry, hentry, htoken⟩ := mem_map.mp h
  rw [mem_toList, filter_eq_some_iff] at hentry
  exact ⟨entry, mem_of_find hentry.1, key_of_find hentry.1,
    of_decide_eq_true hentry.2, htoken⟩

/-- Every entry of the map is that of a running request. -/
def Owned (host : Host) : Prop :=
  ∀ entry ∈ host.requestCancellations,
    ∃ c, Runs host c entry.generation entry.id entry.token

/-- The running requests have different ids, and each has the entry of its
id. -/
structure Listed (host : Host) : Prop where
  apart : ∀ c generation token other otherGeneration otherToken id,
    Runs host c generation id token →
    Runs host other otherGeneration id otherToken → c = other
  listed : ∀ c generation id token, Runs host c generation id token →
    ⟨id, generation, token⟩ ∈ host.requestCancellations
  once : (host.requestCancellations.map Registered.id).Nodup

theorem Owned.step {event : Event} (h : Owned host)
    (hstep : cancelling.step host event = some after) : Owned after := by
  intro entry hentry
  rcases step_cases hstep with ⟨hmap, hruns⟩ |
    ⟨c, connection, requestId, token, rest, -, hconnection, hidle, -, rfl⟩ |
    ⟨c, connection, request, -, hconnection, hrunning, rfl⟩
  · obtain ⟨other, hother⟩ := h entry (hmap ▸ hentry)
    exact ⟨other, (hruns other _ _ _).mpr hother⟩
  · rcases mem_insertToken.mp hentry with ⟨hold, -⟩ | ⟨hid, hgeneration, htoken⟩
    · obtain ⟨other, hother⟩ := h entry hold
      have hne : other ≠ c := by
        rintro rfl
        have hruns := (runs_iff hconnection).mp hother
        cases hidle.symm.trans hruns.2
      exact ⟨other, (runs_put_of_ne hne _).mpr hother⟩
    · refine ⟨c, runs_put_self.mpr ⟨hgeneration.symm, ?_⟩⟩
      rw [hid, htoken]
  · obtain ⟨hmem, hid⟩ := mem_removeToken.mp hentry
    obtain ⟨other, hother⟩ := h entry hmem
    have hne : other ≠ c := by
      rintro rfl
      have hruns := ((runs_iff hconnection).mp hother).2
      rw [hrunning, some.injEq] at hruns
      exact hid (by rw [hruns])
    exact ⟨other, (runs_put_of_ne hne _).mpr hother⟩

/-- A running request of the host after a request has begun on `c`. -/
theorem runs_begun {requestId : Option Str} {token other : Nat}
    {rest : List Line} {generation id : Str} {otherToken : Nat}
    (h : Runs (host.handleLine c connection rest (.execute requestId token))
      other generation id otherToken) :
    (other = c ∧ requestId = some id ∧ connection.generation = generation ∧
        token = otherToken) ∨
      other ≠ c ∧ Runs host other generation id otherToken := by
  by_cases hsame : other = c
  · subst hsame
    obtain ⟨hgeneration, hruns⟩ := runs_put_self.mp h
    obtain ⟨rfl, rfl⟩ := Running.mk.inj (some.inj hruns)
    exact .inl ⟨rfl, rfl, hgeneration, rfl⟩
  · exact .inr ⟨hsame, (runs_put_of_ne hsame _).mp h⟩

theorem Listed.step {event : Event} (h : Listed host)
    (hfresh : FreshId host event)
    (hstep : cancelling.step host event = some after) : Listed after := by
  rcases step_cases hstep with ⟨hmap, hruns⟩ |
    ⟨c, connection, requestId, token, rest, rfl, hconnection, -, hinbox, rfl⟩ |
    ⟨c, connection, request, -, hconnection, hrunning, rfl⟩
  · refine ⟨?_, ?_, hmap ▸ h.once⟩
    · intro c generation token other otherGeneration otherToken id hc hother
      exact h.apart c generation token other otherGeneration otherToken id
        ((hruns _ _ _ _).mp hc) ((hruns _ _ _ _).mp hother)
    · intro c generation id token hc
      exact hmap ▸ h.listed c generation id token ((hruns _ _ _ _).mp hc)
  · -- the id of the request that begins is that of no other
    have hnew : ∀ id, requestId = some id → ∀ other generation otherToken,
        ¬ Runs host other generation id otherToken := by
      rintro id rfl
      exact hfresh connection id token rest hconnection hinbox
    refine ⟨?_, ?_, ?_⟩
    · intro one generation oneToken other otherGeneration otherToken id hone
        hother
      rcases runs_begun hone with ⟨rfl, hid, -⟩ | ⟨-, hold⟩ <;>
        rcases runs_begun hother with ⟨rfl, hid', -⟩ | ⟨-, hold'⟩
      · rfl
      · exact absurd hold' (hnew id hid _ _ _)
      · exact absurd hold (hnew id hid' _ _ _)
      · exact h.apart _ _ _ _ _ _ _ hold hold'
    · intro other generation id otherToken hother
      rcases runs_begun hother with ⟨-, rfl, rfl, rfl⟩ | ⟨-, hold⟩
      · exact mem_insertToken.mpr (.inr ⟨rfl, rfl, rfl⟩)
      · exact mem_insertToken.mpr (.inl ⟨h.listed _ _ _ _ hold,
          fun hid => hnew id hid _ _ _ hold⟩)
    · cases requestId with
      | none => exact h.once
      | some id =>
        change ((_ ++ [_]).map Registered.id).Nodup
        rw [map_append]
        refine (h.once.sublist (filter_sublist.map _)).append
          (nodup_singleton _) fun other hother hid => ?_
        obtain ⟨entry, hentry, rfl⟩ := mem_map.mp hother
        exact of_decide_eq_true (mem_filter.mp hentry).2 (mem_singleton.mp hid)
  · have hold : ∀ other generation id token,
        Runs (host.put c { connection with running := none }) other generation
          id token → other ≠ c ∧ Runs host other generation id token := by
      intro other generation id token hother
      by_cases hsame : other = c
      · subst hsame
        cases (runs_put_self.mp hother).2
      · exact ⟨hsame, (runs_put_of_ne hsame _).mp hother⟩
    refine ⟨?_, ?_, ?_⟩
    · intro one generation oneToken other otherGeneration otherToken id hone
        hother
      exact h.apart _ _ _ _ _ _ _ (hold _ _ _ _ hone).2 (hold _ _ _ _ hother).2
    · intro other generation id token hother
      obtain ⟨hne, hruns⟩ := hold _ _ _ _ hother
      refine mem_removeToken.mpr ⟨h.listed _ _ _ _ hruns, fun hid => hne ?_⟩
      have hself : Runs host c connection.generation id request.token :=
        (runs_iff hconnection).mpr ⟨rfl, by rw [hrunning, ← hid]⟩
      exact h.apart _ _ _ _ _ _ _ hruns hself
    · cases hid : request.requestId with
      | none => exact h.once
      | some id => exact h.once.sublist (filter_sublist.map _)

/-! ## Runs -/

variable {event : Event}

theorem cancels_of_owned (h : Owned host) : CancelsRunning host event := by
  rintro c connection id aimedAt rest after rfl hconnection hinbox hstep token
    hmem
  obtain ⟨found, line, lines, hfound, -, hlines, rfl⟩ := handle_cases hstep
  obtain rfl := some.inj (hconnection.symm.trans hfound)
  obtain ⟨rfl, rfl⟩ := cons.inj (hinbox.symm.trans hlines)
  refine (mem_append.mp hmem).imp_right fun hnew => ?_
  obtain ⟨entry, hentry, rfl, hgeneration, rfl⟩ := mem_matching hnew
  exact hgeneration ▸ h entry hentry

theorem cancels_of_listed (h : Listed host) : CancelsEvery host event := by
  rintro c connection id aimedAt rest after rfl hconnection hinbox hstep token
    hout
  obtain ⟨found, line, lines, hfound, -, hlines, rfl⟩ := handle_cases hstep
  obtain rfl := some.inj (hconnection.symm.trans hfound)
  obtain ⟨rfl, rfl⟩ := cons.inj (hinbox.symm.trans hlines)
  refine ⟨fun hold => hout (mem_append_left _ hold), fun other hother => ?_⟩
  have hlisted := h.listed other _ id token hother
  refine hout (mem_append_right _ (mem_map.mpr
    ⟨⟨id, connection.generation, token⟩, ?_, rfl⟩))
  rw [mem_toList, filter_eq_some_iff]
  exact ⟨find_of_mem h.once hlisted, decide_eq_true rfl⟩

theorem keeps_of_listed (h : Listed host) : KeepsOtherTokens host event := by
  rintro c connection request after rfl hconnection hrunning hstep entry hentry
    htoken -
  obtain ⟨found, ending, hfound, hending, rfl⟩ := complete_cases hstep
  obtain rfl := some.inj (hconnection.symm.trans hfound)
  obtain rfl := some.inj (hrunning.symm.trans hending)
  refine mem_removeToken.mpr ⟨hentry, fun hid => htoken ?_⟩
  have hself := h.listed c _ entry.id request.token
    ((runs_iff hconnection).mpr ⟨rfl, by rw [hrunning, ← hid]⟩)
  have hfound := (find_eq_some_iff h.once).mpr ⟨hentry, rfl⟩
  have hsame := hfound.symm.trans ((find_eq_some_iff h.once).mpr ⟨hself, rfl⟩)
  exact congrArg Registered.token (some.inj hsame)

/-- In every run, a cancel cancels nothing but requests executed under its id in
its generation.  In a run without requests of one id at one time it cancels them
all, and a completion leaves the tokens of the others. -/
theorem cancels_by_id (events : List Event) :
    cancelling.Along CancelsRunning Host.fresh events ∧
      (cancelling.Along FreshId Host.fresh events →
        cancelling.Along (fun host event => CancelsEvery host event ∧
            KeepsOtherTokens host event) Host.fresh events) := by
  have howned : Owned Host.fresh := fun _ hentry => absurd hentry not_mem_nil
  have hlisted : Listed Host.fresh := by
    refine ⟨?_, ?_, nodup_nil⟩
    · rintro c generation token other otherGeneration otherToken id
        ⟨connection, hconnection, -⟩
      cases hconnection
    · rintro c generation id token ⟨connection, hconnection, -⟩
      cases hconnection
  refine ⟨?_, fun hfresh => ?_⟩
  · have hkept : ∀ host event after, Owned host →
        cancelling.step host event = some after → Owned after :=
      fun _ _ _ h hstep => h.step hstep
    have hcancels : ∀ host event, Owned host → True →
        CancelsRunning host event := fun _ _ h _ => cancels_of_owned h
    exact cancelling.along_of_invariant hkept hcancels howned
      (cancelling.along_of_forall (fun _ _ _ => trivial) _)
  · have hboth := (cancelling.along_iff_along
      (P := fun host event => FreshId host event ∧
        (CancelsEvery host event ∧ KeepsOtherTokens host event))
      (fun _ _ _ h hfresh hstep => h.step hfresh hstep)
      (fun _ _ h => and_iff_left
        ⟨cancels_of_listed h, keeps_of_listed h⟩) hlisted).mpr hfresh
    exact (cancelling.along_and.mp hboth).2

/-- A cancel of the second connection meets the first one's request, with the
same id and generation. -/
def crossingRun : List Event :=
  [.connect 0 "g".toList, .connect 1 "g".toList,
    .sendExecute 0 (some "1".toList), .handle 0, .sendCancel 1 "1".toList]

theorem crossingRun_fresh :
    cancelling.Along FreshId Host.fresh (crossingRun ++ [.handle 1]) := by
  refine cancelling.along_cons trivial rfl (cancelling.along_cons trivial rfl ?_)
  refine cancelling.along_cons trivial rfl (cancelling.along_cons ?_ rfl ?_)
  · rintro connection id token rest - - other generation otherToken
      ⟨found, hfound, -, hrunning⟩
    by_cases hfirst : other = 0
    · subst hfirst
      cases hfound
      cases hrunning
    · by_cases hsecond : other = 1
      · subst hsecond
        cases hfound
        cases hrunning
      · simp [Host.send, Host.put, Host.fresh, hfirst, hsecond] at hfound
  refine cancelling.along_cons trivial rfl (cancelling.along_cons ?_ rfl trivial)
  intro connection id token rest hconnection hinbox
  cases hconnection
  cases hinbox

/-- The cancel reaches the request, over another connection than its own. -/
theorem crossingRun_cancels :
    cancelling.Along (fun host event => CancelsEvery host event ∧
          KeepsOtherTokens host event) Host.fresh
        (crossingRun ++ [.handle 1]) ∧
      ∃ host, cancelling.runFrom Host.fresh (crossingRun ++ [.handle 1]) =
        some host ∧ host.cancelled = [0] :=
  ⟨(cancels_by_id _).2 crossingRun_fresh, _, rfl, rfl⟩

/-- The first of two requests with one id completes while the second runs. -/
def overlappingRun : List Event :=
  [.connect 0 "g".toList, .connect 1 "h".toList, .sendExecute 0
    (some "1".toList), .handle 0, .sendExecute 1 (some "1".toList), .handle 1]

/-- A cancel is sent while its request is running, and read after it. -/
def lateRun : List Event :=
  [.connect 0 "g".toList, .sendExecute 0 (some "1".toList), .handle 0,
    .sendCancel 0 "1".toList, .complete 0]

theorem cancel_misses :
    ¬ cancelling.Along HitsItsRequest Host.fresh (crossingRun ++ [.handle 1]) ∧
      ¬ cancelling.Along HitsItsRequest Host.fresh
        (overlappingRun ++ [.complete 0]) ∧
      ¬ cancelling.Along HitsItsRequest Host.fresh
        (lateRun ++ [.handle 0]) := by
  refine ⟨?_, ?_, ?_⟩
  · intro h
    have hcancel := ((cancelling.along_append.mp h).2 _ rfl).1.1
    have hiff := hcancel 1 _ _ _ _ _ rfl rfl rfl rfl 0
    exact absurd (hiff.mp (by decide)) (by decide)
  · intro h
    have hkeeps := ((cancelling.along_append.mp h).2 _ rfl).1.2
    have hentry := hkeeps 0 _ _ _ rfl rfl rfl rfl ⟨"1".toList, "h".toList, 1⟩
      (by decide) (by decide) ⟨1, _, rfl, rfl, rfl⟩
    exact absurd hentry (by decide)
  · intro h
    have hcancel := ((cancelling.along_append.mp h).2 _ rfl).1.1
    have hiff := hcancel 0 _ _ _ _ _ rfl rfl rfl rfl 0
    exact absurd (hiff.mpr (by decide)) (by decide)

end NiceTerm.Mcp.Cancellation
