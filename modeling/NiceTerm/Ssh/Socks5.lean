/-
The proxy of a dynamic tunnel: one client connection, from its greeting to the
bytes that go through the channel opened for it.
-/
import NiceTerm.Lib.IpText
import NiceTerm.Lib.Resuming
import NiceTerm.Lib.Utf8

namespace NiceTerm.Ssh.Socks5

open RustStr (Str)
open ReadExact (readExact)

abbrev Bytes := List UInt8

/-- What the client and the SSH server do on their side: whether the client
still takes the method selection, and which channels the server opens. -/
structure Surroundings where
  takesSelection : Bool
  opens : Str → Nat → Bool
  peerHost : Str
  peerPort : Nat

inductive Effect
  | wrote (bytes : Bytes)
  | channelOpenDirectTcpip (host : Str) (port : Nat) (originator : Str)
      (originatorPort : Nat)
  | forwarded (bytes : Bytes)
deriving DecidableEq, Repr

def noAuthentication : Bytes := [0x05, 0x00]

def reply (code : UInt8) : Bytes := [0x05, code, 0x00, 0x01, 0, 0, 0, 0, 0, 0]

/-- A host is followed by its port. -/
def withPort (host : Str) (pieces : List Bytes) :
    Option (Str × Nat × List Bytes) :=
  match readExact 2 pieces with
  | some ([high, low], pieces) =>
    some (host, high.toNat * 256 + low.toNat, pieces)
  | _ => none

/-- The target after the header; `none` where the handler returns. -/
def readTarget (addressType : UInt8) (pieces : List Bytes) :
    Option (Str × Nat × List Bytes) :=
  if addressType = 0x01 then
    match readExact 4 pieces with
    | some ([a, b, c, d], pieces) =>
      withPort (RustStr.decimal a.toNat ++ '.' :: RustStr.decimal b.toNat ++
          '.' :: RustStr.decimal c.toNat ++ '.' :: RustStr.decimal d.toNat)
        pieces
    | _ => none
  else if addressType = 0x03 then
    match readExact 1 pieces with
    | some ([length], pieces) =>
      match readExact length.toNat pieces with
      | some (domain, pieces) => withPort (Utf8.decodeLossy domain) pieces
      | none => none
    | _ => none
  else if addressType = 0x04 then
    match readExact 16 pieces with
    | some (address, pieces) => withPort (IpText.ipv6 address) pieces
    | none => none
  else none

variable (surroundings : Surroundings)

/-- The channel is asked for, and what the client sends from then on goes
through it. -/
def connect (host : Str) (port : Nat) (pieces : List Bytes) : List Effect :=
  .channelOpenDirectTcpip host port surroundings.peerHost
      surroundings.peerPort ::
    if surroundings.opens host port then
      [.wrote (reply 0x00), .forwarded pieces.flatten]
    else [.wrote (reply 0x05)]

def connectTarget :
    Option (Str × Nat × List Bytes) → List Effect
  | some (host, port, pieces) => connect surroundings host port pieces
  | none => []

/-- The request after the method selection. -/
def handleRequest (pieces : List Bytes) : List Effect :=
  match readExact 4 pieces with
  | some ([version, command, _, addressType], pieces) =>
    if version ≠ 0x05 || command ≠ 0x01 then [.wrote (reply 0x07)]
    else connectTarget surroundings (readTarget addressType pieces)
  | _ => []

/-- `handle_socks5_connection`; the pieces are what the client sends before it
closes its side. -/
def handleSocks5Connection (pieces : List Bytes) : List Effect :=
  match readExact 2 pieces with
  | some ([version, nmethods], pieces) =>
    if version ≠ 0x05 then []
    else
      match readExact nmethods.toNat pieces with
      | some (_, pieces) =>
        if surroundings.takesSelection then
          .wrote noAuthentication :: handleRequest surroundings pieces
        else []
      | none => []
  | _ => []

end NiceTerm.Ssh.Socks5

/-! What a client of the proxy may expect, read off the bytes it sends as a
whole, and for which of them the proxy does it. -/

namespace NiceTerm.Ssh.Socks5

open List Option
open RustStr (Str)
open ReadExact (readExact takeExact readExact_read)

/-! The protocol. -/

inductive Destination
  | ipv4 (octets : Bytes)
  | domain (name : Bytes)
  | ipv6 (octets : Bytes)
deriving DecidableEq, Repr

/-- A complete request: to connect, or one that is refused with its code. -/
inductive Request
  | connect (destination : Destination) (port : Nat)
  | other (code : UInt8)
deriving DecidableEq, Repr

/-- The methods of a greeting, and what follows it. -/
def greeting (stream : Bytes) : Option (Bytes × Bytes) :=
  match takeExact 2 stream with
  | some ([version, nmethods], rest) =>
    if version = 0x05 then takeExact nmethods.toNat rest else none
  | _ => none

/-- The port after an address. -/
def ported (destination : Destination) (stream : Bytes) :
    Option (Destination × Nat × Bytes) :=
  match takeExact 2 stream with
  | some ([high, low], rest) =>
    some (destination, high.toNat * 256 + low.toNat, rest)
  | _ => none

/-- An address of a known length with its port. -/
def addressed (form : Bytes → Destination) (length : Nat) (stream : Bytes) :
    Option (Destination × Nat × Bytes) :=
  match takeExact length stream with
  | some (address, rest) => ported (form address) rest
  | none => none

def destination (addressType : UInt8) (stream : Bytes) :
    Option (Destination × Nat × Bytes) :=
  if addressType = 0x01 then addressed .ipv4 4 stream
  else if addressType = 0x03 then
    match takeExact 1 stream with
    | some ([length], rest) => addressed .domain length.toNat rest
    | _ => none
  else if addressType = 0x04 then addressed .ipv6 16 stream
  else none

/-- The code for a command is 7 and for an address type 8. -/
def refusal (command : UInt8) : UInt8 :=
  if command = 0x01 then 0x08 else 0x07

/-- A request ends with the port; one with an unknown address type is known to
be refused once its header is there. -/
def requestBody (command addressType : UInt8) (stream : Bytes) :
    Option (Request × Bytes) :=
  if addressType ∈ [0x01, 0x03, 0x04] then
    match destination addressType stream with
    | some (destination, port, rest) =>
      some (if command = 0x01 then .connect destination port
        else .other (refusal command), rest)
    | none => none
  else some (.other (refusal command), stream)

def request (stream : Bytes) : Option (Request × Bytes) :=
  match takeExact 4 stream with
  | some ([version, command, _, addressType], rest) =>
    if version = 0x05 then requestBody command addressType rest else none
  | _ => none

/-- A host as text stands for exactly this destination. -/
def Denotes (host : Str) : Destination → Prop
  | .ipv4 octets => IpText.readDotted host = some (octets.map UInt8.toNat)
  | .domain name => Utf8.encode host = name
  | .ipv6 octets => IpText.readIpv6 host = some (IpText.segmentsOf octets)

variable (surroundings : Surroundings)

/-- A channel is asked for once; when it is opened what follows the request
goes through it, and else there is one failure reply. -/
def connected (host : Str) (port : Nat) (rest : Bytes) : List Effect :=
  .channelOpenDirectTcpip host port surroundings.peerHost
      surroundings.peerPort ::
    if surroundings.opens host port then
      [.wrote (reply 0x00), .forwarded rest]
    else [.wrote (reply 0x05)]

def OpensNothing (effects : List Effect) : Prop :=
  ∀ host port originator originatorPort,
    .channelOpenDirectTcpip host port originator originatorPort ∉ effects

/-- What a client may expect after the method selection, when it sends
`stream` from there on. -/
structure Answers (surroundings : Surroundings) (stream : Bytes)
    (effects : List Effect) : Prop where
  connects : ∀ destination port rest, request stream = some
    (.connect destination port, rest) → ∃ host, Denotes host destination ∧
      effects = connected surroundings host port rest
  refuses : ∀ code rest, request stream = some (.other code, rest) →
    effects = [.wrote (reply code)]
  waits : request stream = none → OpensNothing effects

/-- What a client that sends `stream` may expect; one that does not take the
method selection is gone. -/
structure Serves (surroundings : Surroundings) (stream : Bytes)
    (effects : List Effect) : Prop where
  offered : .wrote noAuthentication ∈ effects →
    ∃ methods rest, greeting stream = some (methods, rest) ∧ 0x00 ∈ methods
  answers : surroundings.takesSelection = true → ∀ methods rest,
    greeting stream = some (methods, rest) → 0x00 ∈ methods →
    ∃ answered, effects = .wrote noAuthentication :: answered ∧
      Answers surroundings rest answered
  closes : (∀ methods rest, greeting stream = some (methods, rest) →
    0x00 ∉ methods) → OpensNothing effects

/-! What the handler does with a stream, in whatever pieces it comes. -/

/-- The text the handler makes of a destination. -/
def hostOf : Destination → Str
  | .ipv4 octets => IpText.dotted octets
  | .domain name => Utf8.decodeLossy name
  | .ipv6 octets => IpText.ipv6 octets

/-- The lengths that the address types have. -/
def WellFormed : Destination → Prop
  | .ipv4 octets => octets.length = 4
  | .domain _ => True
  | .ipv6 octets => octets.length = 16

theorem dotted_four (a b c d : UInt8) :
    IpText.dotted [a, b, c, d] =
      RustStr.decimal a.toNat ++ '.' :: RustStr.decimal b.toNat ++
        '.' :: RustStr.decimal c.toNat ++ '.' :: RustStr.decimal d.toNat := by
  simp [IpText.dotted]

/-- A host is read when the destination is, and both stand for the same. -/
inductive Target : Option (Str × Nat × List Bytes) →
    Option (Destination × Nat × Bytes) → Prop
  | none : Target none none
  | some {destination : Destination} (hform : WellFormed destination)
      (port : Nat) (rest : List Bytes) :
      Target (some (hostOf destination, port, rest))
        (some (destination, port, rest.flatten))

theorem withPort_target (destination : Destination)
    (hform : WellFormed destination) (pieces : List Bytes) :
    Target (withPort (hostOf destination) pieces)
      (ported destination pieces.flatten) := by
  have hread := readExact_read 2 pieces
  rw [ported, hread.takeExact_eq, withPort]
  generalize readExact 2 pieces = read at hread
  cases hread with
  | short => exact Target.none
  | items hlength hstream =>
    rename_i items rest
    obtain ⟨high, low, rfl⟩ := length_eq_two.mp hlength
    exact Target.some hform _ rest

theorem readTarget_target (addressType : UInt8) (pieces : List Bytes) :
    Target (readTarget addressType pieces)
      (destination addressType pieces.flatten) := by
  rw [readTarget, destination]
  by_cases hipv4 : addressType = 0x01
  · rw [if_pos hipv4, if_pos hipv4, addressed]
    have hread := readExact_read 4 pieces
    rw [hread.takeExact_eq]
    generalize readExact 4 pieces = read at hread
    cases hread with
    | short => exact Target.none
    | items hlength hstream =>
      rename_i items rest
      obtain ⟨a, b, c, d, rfl⟩ := ReadExact.eq_four hlength
      have htarget := withPort_target (.ipv4 [a, b, c, d]) hlength rest
      rw [hostOf, dotted_four] at htarget
      exact htarget
  · rw [if_neg hipv4, if_neg hipv4]
    by_cases hdomain : addressType = 0x03
    · rw [if_pos hdomain, if_pos hdomain]
      have hread := readExact_read 1 pieces
      rw [hread.takeExact_eq]
      generalize readExact 1 pieces = read at hread
      cases hread with
      | short => exact Target.none
      | items hlength hstream =>
        rename_i items rest
        obtain ⟨length, rfl⟩ := length_eq_one_iff.mp hlength
        simp only [map_some, addressed]
        have hname := readExact_read length.toNat rest
        rw [hname.takeExact_eq]
        generalize readExact length.toNat rest = read at hname
        cases hname with
        | short => exact Target.none
        | items hlength hstream =>
          rename_i name after
          exact withPort_target (.domain name) trivial after
    · rw [if_neg hdomain, if_neg hdomain]
      by_cases hipv6 : addressType = 0x04
      · rw [if_pos hipv6, if_pos hipv6, addressed]
        have hread := readExact_read 16 pieces
        rw [hread.takeExact_eq]
        generalize readExact 16 pieces = read at hread
        cases hread with
        | short => exact Target.none
        | items hlength hstream =>
          rename_i address rest
          exact withPort_target (.ipv6 address) hlength rest
      · rw [if_neg hipv6, if_neg hipv6]
        exact Target.none

/-- What the handler does with a request, by what the request is. -/
inductive Handled (surroundings : Surroundings) (stream : Bytes) :
    List Effect → Prop
  | incomplete (h : request stream = none) : Handled surroundings stream []
  | answered (h : request stream = none) :
      Handled surroundings stream [.wrote (reply 0x07)]
  | command {rest : Bytes} (h : request stream = some (.other 0x07, rest)) :
      Handled surroundings stream [.wrote (reply 0x07)]
  | addressType {rest : Bytes}
      (h : request stream = some (.other 0x08, rest)) :
      Handled surroundings stream []
  | connect {destination : Destination} {port : Nat} {rest : Bytes}
      (h : request stream = some (.connect destination port, rest))
      (hform : WellFormed destination) :
      Handled surroundings stream
        (connected surroundings (hostOf destination) port rest)

theorem requestBody_other {command : UInt8} (h : command ≠ 0x01)
    (addressType : UInt8) (stream : Bytes) :
    requestBody command addressType stream = none ∨
      ∃ rest, requestBody command addressType stream =
        some (.other 0x07, rest) := by
  rw [requestBody, refusal, if_neg h]
  split
  · split
    · exact .inr ⟨_, rfl⟩
    · exact .inl rfl
  · exact .inr ⟨stream, rfl⟩

/-- What the handler does with a command to connect. -/
theorem connect_handled {stream : Bytes}
    (addressType : UInt8) (pieces : List Bytes)
    (h : request stream = requestBody 0x01 addressType pieces.flatten) :
    Handled surroundings stream
      (connectTarget surroundings (readTarget addressType pieces)) := by
  have htarget := readTarget_target addressType pieces
  rw [requestBody, refusal] at h
  by_cases hknown : addressType ∈ [0x01, 0x03, 0x04]
  · rw [if_pos hknown] at h
    generalize readTarget addressType pieces = target at htarget
    generalize destination addressType pieces.flatten = found at htarget h
    cases htarget with
    | none => exact Handled.incomplete h
    | some hform port rest => exact Handled.connect h hform
  · rw [if_neg hknown] at h
    have hnone : readTarget addressType pieces = none := by
      simp only [mem_cons, not_mem_nil, or_false, not_or] at hknown
      rw [readTarget, if_neg hknown.1, if_neg hknown.2.1, if_neg hknown.2.2]
    rw [hnone]
    exact Handled.addressType h

theorem handleRequest_handled (pieces : List Bytes) :
    Handled surroundings pieces.flatten
      (handleRequest surroundings pieces) := by
  have hread := readExact_read 4 pieces
  have htake := hread.takeExact_eq
  rw [handleRequest]
  generalize readExact 4 pieces = read at hread htake
  cases hread with
  | short =>
    apply Handled.incomplete
    rw [request, htake]
    rfl
  | items hlength hstream =>
    rename_i items rest
    obtain ⟨version, command, reserved, addressType, rfl⟩ :=
      ReadExact.eq_four hlength
    have hrequest : request pieces.flatten =
        if version = 0x05 then requestBody command addressType rest.flatten
        else none := by
      rw [request, htake]
      rfl
    simp only [Bool.or_eq_true, decide_eq_true_eq]
    by_cases hversion : version = 0x05
    · rw [if_pos hversion] at hrequest
      by_cases hcommand : command = 0x01
      · rw [if_neg (by simp [hversion, hcommand])]
        rw [hcommand] at hrequest
        exact connect_handled surroundings addressType rest hrequest
      · rw [if_pos (.inr hcommand)]
        rcases requestBody_other hcommand addressType rest.flatten with
          hnone | ⟨more, hother⟩
        · exact Handled.answered (hrequest.trans hnone)
        · exact Handled.command (hrequest.trans hother)
    · rw [if_neg hversion] at hrequest
      rw [if_pos (.inl hversion)]
      exact Handled.answered hrequest

/-- What the handler does with a connection, by what its greeting is. -/
inductive Greeted (surroundings : Surroundings) (stream : Bytes) :
    List Effect → Prop
  | closed (h : greeting stream = none) : Greeted surroundings stream []
  | gone (htaken : surroundings.takesSelection = false) :
      Greeted surroundings stream []
  | selected {methods rest : Bytes} {effects : List Effect}
      (htaken : surroundings.takesSelection = true)
      (h : greeting stream = some (methods, rest))
      (hhandled : Handled surroundings rest effects) :
      Greeted surroundings stream (.wrote noAuthentication :: effects)

theorem handle_greeted (pieces : List Bytes) :
    Greeted surroundings pieces.flatten
      (handleSocks5Connection surroundings pieces) := by
  have hread := readExact_read 2 pieces
  have htake := hread.takeExact_eq
  rw [handleSocks5Connection]
  generalize readExact 2 pieces = read at hread htake
  cases hread with
  | short =>
    apply Greeted.closed
    rw [greeting, htake]
    rfl
  | items hlength hstream =>
    rename_i items rest
    obtain ⟨version, nmethods, rfl⟩ := length_eq_two.mp hlength
    have hgreeting : greeting pieces.flatten =
        if version = 0x05 then takeExact nmethods.toNat rest.flatten
        else none := by
      rw [greeting, htake]
      rfl
    simp only
    by_cases hversion : version = 0x05
    · rw [if_pos hversion] at hgreeting
      rw [if_neg (not_not_intro hversion)]
      have hmethods := readExact_read nmethods.toNat rest
      rw [hmethods.takeExact_eq] at hgreeting
      generalize readExact nmethods.toNat rest = read at hmethods hgreeting
      cases hmethods with
      | short => exact Greeted.closed hgreeting
      | items hlength hstream =>
        rename_i methods after
        simp only
        by_cases htaken : surroundings.takesSelection = true
        · rw [if_pos htaken]
          exact Greeted.selected htaken hgreeting
            (handleRequest_handled surroundings after)
        · rw [if_neg htaken]
          exact Greeted.gone (Bool.eq_false_iff.mpr htaken)
    · rw [if_neg hversion] at hgreeting
      rw [if_pos hversion]
      exact Greeted.closed hgreeting

/-! When the proxy does what the client may expect. -/

/-- The condition on a request: to connect it names an address type that
exists, and a domain name is a text. -/
def Servable : Request → Prop
  | .connect (.domain name) _ => ∃ text, name = Utf8.encode text
  | .connect _ _ => True
  | .other code => code ≠ 0x08

/-- The text stands for the destination unless the name is no text. -/
theorem denotes_hostOf_iff {destination : Destination}
    (hform : WellFormed destination) (port : Nat) :
    Denotes (hostOf destination) destination ↔
      Servable (.connect destination port) := by
  cases destination with
  | ipv4 octets =>
    exact iff_of_true (IpText.readDotted_dotted hform) trivial
  | domain name => exact Utf8.encode_decodeLossy_iff name
  | ipv6 octets => exact iff_of_true (IpText.readIpv6_ipv6 hform) trivial

theorem opensNothing_nil : OpensNothing [] :=
  fun _ _ _ _ => not_mem_nil

theorem opensNothing_wrote (bytes : Bytes) : OpensNothing [.wrote bytes] := by
  intro host port originator originatorPort hmem
  exact Effect.noConfusion (mem_singleton.mp hmem)

/-- One channel is asked for, for one host. -/
theorem connected_host {surroundings : Surroundings} {host host' : Str}
    {port : Nat} {rest : Bytes}
    (h : connected surroundings host port rest =
      connected surroundings host' port rest) : host = host' := by
  have hfirst := (cons.inj h).1
  exact (Effect.channelOpenDirectTcpip.inj hfirst).1

/-- The answer is the expected one exactly for a request that meets the
condition. -/
theorem Handled.answers_iff {surroundings : Surroundings} {stream : Bytes}
    {effects : List Effect} (h : Handled surroundings stream effects) :
    Answers surroundings stream effects ↔
      ∀ req rest, request stream = some (req, rest) → Servable req := by
  have hnone (hrequest : request stream = none)
      (hopens : OpensNothing effects) :
      Answers surroundings stream effects := by
    refine ⟨?_, ?_, fun _ => hopens⟩
    · intro destination port rest hsome
      rw [hrequest] at hsome
      exact absurd hsome.symm (some_ne_none _)
    · intro code rest hsome
      rw [hrequest] at hsome
      exact absurd hsome.symm (some_ne_none _)
  have hvacuous (hrequest : request stream = none) :
      ∀ req rest, request stream = some (req, rest) → Servable req := by
    intro req rest hsome
    rw [hrequest] at hsome
    exact absurd hsome.symm (some_ne_none _)
  cases h with
  | incomplete h =>
    exact iff_of_true (hnone h opensNothing_nil) (hvacuous h)
  | answered h =>
    exact iff_of_true (hnone h (opensNothing_wrote _)) (hvacuous h)
  | command h =>
    apply iff_of_true
    · refine ⟨?_, ?_, fun _ => opensNothing_wrote _⟩
      · intro destination port rest hsome
        rw [h] at hsome
        exact Request.noConfusion (Prod.mk.inj (some.inj hsome)).1
      · intro code rest hsome
        rw [h] at hsome
        rw [(Request.other.inj (Prod.mk.inj (some.inj hsome)).1)]
    · intro req rest hsome
      rw [h] at hsome
      rw [← (Prod.mk.inj (some.inj hsome)).1]
      change (0x07 : UInt8) ≠ 0x08
      decide
  | addressType h =>
    apply iff_of_false
    · intro hanswers
      exact absurd (hanswers.refuses _ _ h) (cons_ne_nil _ _).symm
    · intro hservable
      exact hservable _ _ h rfl
  | connect h hform =>
    rename_i destination port rest
    have hdenotes := denotes_hostOf_iff hform port
    constructor
    · intro hanswers req more hsome
      rw [h] at hsome
      rw [← (Prod.mk.inj (some.inj hsome)).1, ← hdenotes]
      obtain ⟨host, hhost, heffects⟩ := hanswers.connects _ _ _ h
      rw [connected_host heffects]
      exact hhost
    · intro hservable
      refine ⟨?_, ?_, ?_⟩
      · intro destination' port' rest' hsome
        rw [h] at hsome
        obtain ⟨hreq, rfl⟩ := Prod.mk.inj (some.inj hsome)
        obtain ⟨rfl, rfl⟩ := Request.connect.inj hreq
        exact ⟨_, hdenotes.mpr (hservable _ _ h), rfl⟩
      · intro code rest' hsome
        rw [h] at hsome
        exact Request.noConfusion (Prod.mk.inj (some.inj hsome)).1
      · intro hnone
        rw [h] at hnone
        exact absurd hnone (some_ne_none _)

/-- The condition on what a client sends: no authentication is among the
methods it offers, and its request can be served. -/
def ServableStream (stream : Bytes) : Prop :=
  ∀ methods rest, greeting stream = some (methods, rest) → 0x00 ∈ methods ∧
      ∀ req more, request rest = some (req, more) → Servable req

/-- The proxy does what a client may expect, whatever the pieces its bytes
come in, exactly when what it sends meets the condition. -/
theorem handleSocks5Connection_serves_iff (surroundings : Surroundings)
    (pieces : List Bytes) :
    Serves surroundings pieces.flatten
        (handleSocks5Connection surroundings pieces) ↔
      (surroundings.takesSelection = true →
        ServableStream pieces.flatten) := by
  have hgreeted := handle_greeted surroundings pieces
  generalize handleSocks5Connection surroundings pieces = effects at hgreeted
  generalize pieces.flatten = stream at hgreeted
  cases hgreeted with
  | closed h =>
    apply iff_of_true
    · refine ⟨fun hmem => absurd hmem not_mem_nil, ?_,
        fun _ => opensNothing_nil⟩
      intro _ methods rest hsome
      rw [h] at hsome
      exact absurd hsome.symm (some_ne_none _)
    · intro _ methods rest hsome
      rw [h] at hsome
      exact absurd hsome.symm (some_ne_none _)
  | gone htaken =>
    apply iff_of_true
    · refine ⟨fun hmem => absurd hmem not_mem_nil, ?_,
        fun _ => opensNothing_nil⟩
      intro htrue
      rw [htaken] at htrue
      exact absurd htrue Bool.false_ne_true
    · intro htrue
      rw [htaken] at htrue
      exact absurd htrue Bool.false_ne_true
  | selected htaken h hhandled =>
    rename_i methods rest answered
    have hanswers := hhandled.answers_iff
    constructor
    · intro hserves _ methods' rest' hsome
      rw [h] at hsome
      obtain ⟨rfl, rfl⟩ := Prod.mk.inj (some.inj hsome)
      obtain ⟨methods', rest', hoffer, hzero⟩ :=
        hserves.offered mem_cons_self
      rw [h] at hoffer
      obtain ⟨rfl, rfl⟩ := Prod.mk.inj (some.inj hoffer)
      obtain ⟨answered', heffects, hanswered⟩ :=
        hserves.answers htaken methods rest h hzero
      obtain rfl := (cons.inj heffects).2
      exact ⟨hzero, hanswers.mp hanswered⟩
    · intro hstream
      obtain ⟨hzero, hservable⟩ := hstream htaken methods rest h
      refine ⟨fun _ => ⟨methods, rest, h, hzero⟩, ?_, ?_⟩
      · intro _ methods' rest' hsome _
        rw [h] at hsome
        obtain ⟨rfl, rfl⟩ := Prod.mk.inj (some.inj hsome)
        exact ⟨answered, rfl, hanswers.mpr hservable⟩
      · intro hnot
        exact absurd hzero (hnot methods rest h)

def localServer : Surroundings :=
  ⟨true, fun _ _ => true, "127.0.0.1".toList, 50000⟩

/-- A client that offers a password only. -/
def passwordOnly : List Bytes := [[0x05, 0x01], [0x02]]

/-- A request with an address type that does not exist. -/
def unknownAddressType : List Bytes :=
  [[0x05, 0x01, 0x00], [0x05, 0x01, 0x00, 0x05, 1, 2, 3, 4, 0, 80]]

/-- No authentication is selected although it was not offered, and the unknown
address type gets no reply. -/
theorem handleSocks5Connection_fails :
    ¬ Serves localServer passwordOnly.flatten
        (handleSocks5Connection localServer passwordOnly) ∧
      ¬ Serves localServer unknownAddressType.flatten
        (handleSocks5Connection localServer unknownAddressType) := by
  refine ⟨?_, ?_⟩
  · intro hserves
    have hselected : Effect.wrote noAuthentication ∈
        handleSocks5Connection localServer passwordOnly := by decide
    obtain ⟨methods, rest, hgreeting, hzero⟩ := hserves.offered hselected
    have hmethods : greeting passwordOnly.flatten = some ([0x02], []) := by
      decide
    rw [hmethods] at hgreeting
    obtain ⟨rfl, -⟩ := Prod.mk.inj (some.inj hgreeting)
    exact absurd hzero (by decide)
  · intro hserves
    have hgreeting : greeting unknownAddressType.flatten =
        some ([0x00], [0x05, 0x01, 0x00, 0x05, 1, 2, 3, 4, 0, 80]) := by decide
    have hrequest : request [0x05, 0x01, 0x00, 0x05, 1, 2, 3, 4, 0, 80] =
        some (.other 0x08, [1, 2, 3, 4, 0, 80]) := by decide
    have hhandled : handleSocks5Connection localServer unknownAddressType =
        [.wrote noAuthentication] := by decide
    obtain ⟨answered, heffects, hanswers⟩ :=
      hserves.answers rfl _ _ hgreeting (by decide)
    rw [hhandled] at heffects
    obtain rfl := (cons.inj heffects).2
    exact absurd (hanswers.refuses _ _ hrequest) (by decide)

end NiceTerm.Ssh.Socks5
