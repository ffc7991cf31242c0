/-
The rewriter of the cookie in the setup packet of a forwarded X client.  It
buffers the stream until the packet is complete, and passes the rest on.
-/
import Mathlib.Data.List.Basic

namespace NiceTerm.Ssh

open List Option

namespace X11

abbrev Bytes := List UInt8

def mitMagicCookie : Bytes :=
  [0x4d, 0x49, 0x54, 0x2d, 0x4d, 0x41, 0x47, 0x49, 0x43, 0x2d, 0x43, 0x4f, 0x4f,
    0x4b, 0x49, 0x45, 0x2d, 0x31]

/-- The first byte of a stream of little-endian words, and of big-endian ones. -/
def littleEndian : UInt8 := 0x6c
def bigEndian : UInt8 := 0x42

/-- `read_u16`, in the byte order that the first byte names. -/
def readU16 (buffer : Bytes) (offset : Nat) : Option Nat := do
  let first ← buffer[offset]?
  let second ← buffer[offset + 1]?
  let byteOrder ← buffer[0]?
  if byteOrder = littleEndian then some (first.toNat + 256 * second.toNat)
  else if byteOrder = bigEndian then some (256 * first.toNat + second.toNat)
  else none

def pad4 (n : Nat) : Nat := (n + 3) / 4 * 4

def setupPacketLen (buffer : Bytes) : Option Nat :=
  if buffer.length < 12 then none
  else do
    let authProtocolLen ← readU16 buffer 6
    let authDataLen ← readU16 buffer 8
    some (12 + pad4 authProtocolLen + pad4 authDataLen)

def slice (buffer : Bytes) (start stop : Nat) : Bytes :=
  (buffer.take stop).drop start

/-- `rewrite_x11_auth_setup_packet`: the buffer it leaves, and whether it has
put the real cookie there. -/
def rewriteX11AuthSetupPacket (buffer fakeCookie : Bytes)
    (realCookie : Option Bytes) : Bytes × Bool :=
  match realCookie with
  | none => (buffer, false)
  | some realCookie =>
    if buffer.length < 12 then (buffer, false)
    else
      let protocolLen := (readU16 buffer 6).getD 0
      let authLen := (readU16 buffer 8).getD 0
      let protocolStart := 12
      let protocolEnd := protocolStart + protocolLen
      let authStart := protocolStart + pad4 protocolLen
      let authEnd := authStart + authLen
      if buffer.length < authEnd then (buffer, false)
      else if slice buffer protocolStart protocolEnd ≠ mitMagicCookie then
        (buffer, false)
      else if authLen ≠ realCookie.length ∨ authLen ≠ fakeCookie.length then
        (buffer, false)
      else if slice buffer authStart authEnd ≠ fakeCookie then (buffer, false)
      else
        (buffer.take authStart ++ realCookie ++ buffer.drop authEnd, true)

structure X11AuthRewriter where
  fakeCookie : Bytes
  realCookie : Option Bytes
  buffer : Bytes := []
  complete : Bool := false
deriving DecidableEq, Repr

namespace X11AuthRewriter

/-- `push`: what goes on to the X server, and the rewriter afterwards. -/
def push (rewriter : X11AuthRewriter) (data : Bytes) : Bytes × X11AuthRewriter :=
  if rewriter.complete then (data, rewriter)
  else
    let buffer := rewriter.buffer ++ data
    match setupPacketLen buffer with
    | none => ([], { rewriter with buffer })
    | some packetLen =>
      if buffer.length < packetLen then ([], { rewriter with buffer })
      else
        let output := (rewriteX11AuthSetupPacket (buffer.take packetLen)
          rewriter.fakeCookie rewriter.realCookie).1
        (output ++ buffer.drop packetLen,
          { rewriter with buffer := [], complete := true })

/-- The chunks of a stream, one after another: all that goes on, and the
rewriter afterwards. -/
def pushAll (rewriter : X11AuthRewriter) : List Bytes → Bytes × X11AuthRewriter
  | [] => ([], rewriter)
  | data :: chunks =>
    let pushed := rewriter.push data
    let rest := pushAll pushed.2 chunks
    (pushed.1 ++ rest.1, rest.2)

end X11AuthRewriter

/-- The stream begins with a legal byte order. -/
def LegalOrder (stream : Bytes) : Prop :=
  stream.head? = some littleEndian ∨ stream.head? = some bigEndian

/-- The setup packet at the front of the stream is complete, and this long. -/
def SetupComplete (stream : Bytes) (packetLen : Nat) : Prop :=
  setupPacketLen stream = some packetLen ∧ packetLen ≤ stream.length

/-- The setup packet names the cookie protocol, and `cookie` is its data:
`front` is the header with the name and its padding. -/
structure Carries (stream front cookie back : Bytes) : Prop where
  split : stream = front ++ cookie ++ back
  front_length : front.length = 32
  protocol : slice front 12 30 = mitMagicCookie
  protocolLen : readU16 front 6 = some 18
  authLen : readU16 front 8 = some cookie.length

/-- The longest setup packet that the lengths of its parts allow. -/
def maxSetupPacketLen : Nat := 12 + pad4 65535 + pad4 65535

/-- What is to go on of a stream, and what may be held back of it. -/
structure Rewritten (fakeCookie : Bytes) (realCookie : Option Bytes)
    (stream output held : Bytes) : Prop where
  waits : LegalOrder stream → (¬ ∃ n, SetupComplete stream n) → output = []
  swaps : LegalOrder stream → (∃ n, SetupComplete stream n) →
    ∀ front back, Carries stream front fakeCookie back →
      ∀ real, realCookie = some real → output = front ++ real ++ back
  passes : LegalOrder stream → (∃ n, SetupComplete stream n) →
    (realCookie = none ∨ ∀ front back, ¬ Carries stream front fakeCookie back) →
      output = stream
  bounded : held.length ≤ maxSetupPacketLen

/-! ## The setup packet at the front of a stream -/

variable {buffer stream fakeCookie : Bytes}

theorem readU16_append {offset : Nat}
    (h : offset + 1 < buffer.length) (rest : Bytes) :
    readU16 (buffer ++ rest) offset = readU16 buffer offset := by
  rw [readU16, readU16, getElem?_append_left (by omega),
    getElem?_append_left h, getElem?_append_left (by omega)]

variable {n : Nat}

theorem readU16_take {offset : Nat}
    (h : offset + 1 < n) (hn : n ≤ buffer.length) :
    readU16 (buffer.take n) offset = readU16 buffer offset := by
  have hshort : offset + 1 < (buffer.take n).length := by
    rw [length_take]
    omega
  have happend := readU16_append hshort (buffer.drop n)
  rw [take_append_drop] at happend
  exact happend.symm

theorem readU16_le {offset value : Nat}
    (h : readU16 buffer offset = some value) : value ≤ 65535 := by
  simp only [readU16, bind_eq_bind, bind_eq_some_iff] at h
  obtain ⟨first, _, second, _, byteOrder, _, hvalue⟩ := h
  have hfirst := first.toNat_lt
  have hsecond := second.toNat_lt
  split at hvalue
  · cases hvalue
    omega
  · split at hvalue
    · cases hvalue
      omega
    · cases hvalue

theorem legalOrder_of_readU16 {offset value : Nat}
    (h : readU16 buffer offset = some value) : LegalOrder buffer := by
  simp only [readU16, bind_eq_bind, bind_eq_some_iff] at h
  obtain ⟨_, _, _, _, byteOrder, horder, hvalue⟩ := h
  rw [LegalOrder, head?_eq_getElem?, horder]
  split at hvalue
  · next hlittle => exact .inl (by rw [hlittle])
  · split at hvalue
    · next hbig => exact .inr (by rw [hbig])
    · cases hvalue

theorem pad4_le (h : n ≤ 65535) : pad4 n ≤ pad4 65535 := by
  rw [pad4, pad4]
  omega

/-- The length is the one that the two fields of the header give. -/
theorem setupPacketLen_eq_some :
    setupPacketLen buffer = some n ↔
      12 ≤ buffer.length ∧ ∃ protocolLen authLen,
        readU16 buffer 6 = some protocolLen ∧ readU16 buffer 8 = some authLen ∧
          n = 12 + pad4 protocolLen + pad4 authLen := by
  rw [setupPacketLen]
  by_cases hlength : buffer.length < 12
  · rw [if_pos hlength]
    simp only [reduceCtorEq, false_iff, not_and]
    omega
  · rw [if_neg hlength]
    simp only [bind_eq_bind, bind_eq_some_iff, some.injEq,
      Nat.le_of_not_lt hlength, true_and]
    constructor
    · rintro ⟨protocolLen, hprotocol, authLen, hauth, rfl⟩
      exact ⟨protocolLen, authLen, hprotocol, hauth, rfl⟩
    · rintro ⟨protocolLen, authLen, hprotocol, hauth, rfl⟩
      exact ⟨protocolLen, hprotocol, authLen, hauth, rfl⟩

theorem setupPacketLen_append (h : setupPacketLen buffer = some n)
    (rest : Bytes) : setupPacketLen (buffer ++ rest) = some n := by
  rw [setupPacketLen_eq_some] at h ⊢
  obtain ⟨hlength, protocolLen, authLen, hprotocol, hauth, hn⟩ := h
  refine ⟨by rw [length_append]; omega, protocolLen, authLen, ?_, ?_, hn⟩
  · rw [readU16_append (by omega), hprotocol]
  · rw [readU16_append (by omega), hauth]

theorem SetupComplete.append (h : SetupComplete stream n) (rest : Bytes) :
    SetupComplete (stream ++ rest) n := by
  refine ⟨setupPacketLen_append h.1 rest, Nat.le_trans h.2 ?_⟩
  rw [length_append]
  exact Nat.le_add_right _ _

theorem SetupComplete.legalOrder
    (h : SetupComplete stream n) : LegalOrder stream := by
  obtain ⟨-, protocolLen, -, hprotocol, -⟩ := setupPacketLen_eq_some.mp h.1
  exact legalOrder_of_readU16 hprotocol

theorem setupPacketLen_le
    (h : setupPacketLen buffer = some n) : n ≤ maxSetupPacketLen := by
  obtain ⟨-, protocolLen, authLen, hprotocol, hauth, rfl⟩ :=
    setupPacketLen_eq_some.mp h
  have hp := pad4_le (readU16_le hprotocol)
  have ha := pad4_le (readU16_le hauth)
  rw [maxSetupPacketLen]
  omega

theorem readU16_isSome (offset : Nat)
    (horder : LegalOrder buffer) (h : offset + 1 < buffer.length) :
    ∃ value, readU16 buffer offset = some value := by
  simp only [readU16, bind_eq_bind, getElem?_eq_getElem h, getElem?_eq_getElem
    (Nat.lt_of_succ_lt h), bind_some, ← head?_eq_getElem?]
  rcases horder with hlittle | hbig
  · rw [hlittle]
    exact ⟨_, rfl⟩
  · rw [hbig]
    exact ⟨_, rfl⟩

/-- Without a complete packet, no more than the longest packet has come. -/
theorem length_le_of_incomplete (horder : LegalOrder stream)
    (h : ¬ ∃ n, SetupComplete stream n) : stream.length ≤ maxSetupPacketLen := by
  by_cases hlength : 12 ≤ stream.length
  · obtain ⟨protocolLen, hprotocol⟩ :=
      readU16_isSome 6 horder (by omega)
    obtain ⟨authLen, hauth⟩ := readU16_isSome 8 horder (by omega)
    have hlen : setupPacketLen stream =
        some (12 + pad4 protocolLen + pad4 authLen) :=
      setupPacketLen_eq_some.mpr
        ⟨hlength, protocolLen, authLen, hprotocol, hauth, rfl⟩
    have hle := setupPacketLen_le hlen
    by_contra hlong
    exact h ⟨_, hlen, by omega⟩
  · have hmax : 12 ≤ maxSetupPacketLen := by decide
    omega

/-! ## The rewriting of the packet -/

theorem slice_take {start stop : Nat} (h : stop ≤ n) :
    slice (buffer.take n) start stop = slice buffer start stop := by
  rw [slice, slice, take_take, Nat.min_eq_left h]

theorem slice_append {front : Bytes} {start stop : Nat}
    (h : stop ≤ front.length) (back : Bytes) :
    slice (front ++ back) start stop = slice front start stop := by
  rw [slice, slice, take_append_of_le_length h]

theorem slice_middle (front middle back : Bytes) :
    slice (front ++ middle ++ back) front.length
      (front.length + middle.length) = middle := by
  rw [slice, ← length_append, take_left, drop_left]

theorem length_slice {start stop : Nat}
    (h : stop ≤ buffer.length) : (slice buffer start stop).length = stop - start := by
  rw [slice, length_drop, length_take, Nat.min_eq_left h]

theorem split_slice (buffer : Bytes) {start stop : Nat} (h : start ≤ stop) :
    buffer = buffer.take start ++ slice buffer start stop ++ buffer.drop stop := by
  have htake : buffer.take start = (buffer.take stop).take start := by
    rw [take_take, Nat.min_eq_left h]
  rw [slice, htake, take_append_drop, take_append_drop]

theorem pad4_ge (n : Nat) : n ≤ pad4 n := by
  rw [pad4]
  omega

/-- A stream that carries a cookie has the packet that the cookie belongs to. -/
theorem Carries.packetLen {front cookie back : Bytes}
    (h : Carries stream front cookie back) (hcomplete : SetupComplete stream n) :
    readU16 stream 6 = some 18 ∧ readU16 stream 8 = some cookie.length ∧
      n = 32 + pad4 cookie.length := by
  have hfront := h.front_length
  have hprotocol : readU16 stream 6 = some 18 := by
    rw [h.split, append_assoc, readU16_append (by omega), h.protocolLen]
  have hauth : readU16 stream 8 = some cookie.length := by
    rw [h.split, append_assoc, readU16_append (by omega), h.authLen]
  obtain ⟨-, protocolLen, authLen, hp, ha, rfl⟩ :=
    setupPacketLen_eq_some.mp hcomplete.1
  rw [hprotocol, some.injEq] at hp
  rw [hauth, some.injEq] at ha
  subst hp ha
  exact ⟨hprotocol, hauth, rfl⟩

/-- The cookie of a packet that carries the fake one is swapped. -/
theorem rewrite_of_carries {front back real : Bytes}
    (hcomplete : SetupComplete stream n)
    (h : Carries stream front fakeCookie back)
    (hlength : real.length = fakeCookie.length) :
    (rewriteX11AuthSetupPacket (stream.take n) fakeCookie (some real)).1 ++
      stream.drop n = front ++ real ++ back := by
  obtain ⟨hprotocol, hauth, hn⟩ := h.packetLen hcomplete
  have hpad := pad4_ge fakeCookie.length
  have hstream := hcomplete.2
  have hfront := h.front_length
  have htakeLength : (stream.take n).length = n := by
    rw [length_take, Nat.min_eq_left hstream]
  have hpacket6 : readU16 (stream.take n) 6 = some 18 := by
    rw [readU16_take (by omega) hstream, hprotocol]
  have hpacket8 : readU16 (stream.take n) 8 = some fakeCookie.length := by
    rw [readU16_take (by omega) hstream, hauth]
  have hname : slice (stream.take n) 12 30 = mitMagicCookie := by
    rw [slice_take (by omega), h.split, append_assoc,
      slice_append (by omega), h.protocol]
  have hcookie : slice (stream.take n) 32 (32 + fakeCookie.length) =
      fakeCookie := by
    rw [slice_take (by omega), h.split, ← hfront, slice_middle]
  have hstart : stream.take 32 = front := by
    rw [h.split, append_assoc, ← hfront, take_left]
  have hstop : stream.drop (32 + fakeCookie.length) = back := by
    rw [h.split, ← hfront, ← length_append, drop_left]
  have hrest : (stream.take n).drop (32 + fakeCookie.length) ++ stream.drop n =
      back := by
    rw [← drop_append_of_le_length (by omega), take_append_drop, hstop]
  have hpad18 : 12 + pad4 18 = 32 := rfl
  rw [rewriteX11AuthSetupPacket]
  simp only [htakeLength, hpacket6, hpacket8, getD_some, hpad18]
  rw [if_neg (by omega), if_neg (by omega), if_neg (not_not.mpr hname),
    if_neg (by simp [hlength]), if_neg (not_not.mpr hcookie), take_take,
    Nat.min_eq_left (by omega), hstart, append_assoc, hrest]

/-- The parts of a packet that names the protocol and has the cookie as its
data. -/
theorem carries_of_slices {cookie : Bytes} {protocolLen : Nat}
    (hprotocol : readU16 stream 6 = some protocolLen)
    (hauth : readU16 stream 8 = some cookie.length)
    (hcomplete : SetupComplete stream n)
    (hname : slice (stream.take n) 12 (12 + protocolLen) = mitMagicCookie)
    (hcookie : slice (stream.take n) (12 + pad4 protocolLen)
      (12 + pad4 protocolLen + cookie.length) = cookie) :
    Carries stream (stream.take 32) cookie
      (stream.drop (32 + cookie.length)) := by
  obtain ⟨-, p, a, hp, ha, hn⟩ := setupPacketLen_eq_some.mp hcomplete.1
  rw [hprotocol, some.injEq] at hp
  rw [hauth, some.injEq] at ha
  subst hp ha
  have hstream := hcomplete.2
  have hpadProtocol := pad4_ge protocolLen
  have hpadAuth := pad4_ge cookie.length
  rw [slice_take (by omega)] at hname hcookie
  have hlen : protocolLen = 18 := by
    have hlength := congrArg List.length hname
    rw [length_slice (by omega)] at hlength
    have hmit : mitMagicCookie.length = 18 := rfl
    omega
  subst hlen
  have hpad18 : pad4 18 = 20 := rfl
  rw [hpad18] at hcookie hn
  have hsplit := split_slice stream (Nat.le_add_right 32 cookie.length)
  refine ⟨?_, by rw [length_take]; omega, ?_, ?_, ?_⟩
  · rw [hcookie] at hsplit
    exact hsplit
  · rw [slice_take (by omega), hname]
  · rw [readU16_take (by omega) (by omega), hprotocol]
  · rw [readU16_take (by omega) (by omega), hauth]

variable {realCookie : Option Bytes}

/-- A packet is only changed if it carries the fake cookie and the real one is
as long. -/
theorem rewrite_cases (hcomplete : SetupComplete stream n) :
    (rewriteX11AuthSetupPacket (stream.take n) fakeCookie realCookie).1 =
        stream.take n ∨
      ∃ real front back, realCookie = some real ∧
        real.length = fakeCookie.length ∧
        Carries stream front fakeCookie back := by
  obtain ⟨-, protocolLen, authLen, hprotocol, hauth, hn⟩ :=
    setupPacketLen_eq_some.mp hcomplete.1
  have hstream := hcomplete.2
  have htakeLength : (stream.take n).length = n := by
    rw [length_take, Nat.min_eq_left hstream]
  have hpacket6 : readU16 (stream.take n) 6 = some protocolLen := by
    rw [readU16_take (by omega) hstream, hprotocol]
  have hpacket8 : readU16 (stream.take n) 8 = some authLen := by
    rw [readU16_take (by omega) hstream, hauth]
  cases realCookie with
  | none => exact .inl rfl
  | some real =>
    rw [rewriteX11AuthSetupPacket]
    simp only [htakeLength, hpacket6, hpacket8, getD_some]
    split
    · exact .inl rfl
    · split
      · exact .inl rfl
      · split
        · exact .inl rfl
        · split
          · exact .inl rfl
          · split
            · exact .inl rfl
            · next hshort hend hname hlengths hcookie =>
                rw [not_not] at hname hcookie
                rw [not_or, not_not, not_not] at hlengths
                exact .inr ⟨real, stream.take 32,
                  stream.drop (32 + fakeCookie.length), rfl,
                  hlengths.1.symm.trans hlengths.2,
                  carries_of_slices hprotocol
                    (hlengths.2 ▸ hauth) hcomplete hname
                    (hlengths.2 ▸ hcookie)⟩

/-! ## Streams in chunks -/

/-- The rewriter after a stream: it has passed the stream on from the complete
packet on, or holds all of it. -/
def After (fakeCookie : Bytes) (realCookie : Option Bytes)
    (stream output : Bytes) (rewriter : X11AuthRewriter) : Prop :=
  rewriter.fakeCookie = fakeCookie ∧ rewriter.realCookie = realCookie ∧
    ((∃ n, SetupComplete stream n ∧ rewriter.complete = true ∧
        rewriter.buffer = [] ∧
        output = (rewriteX11AuthSetupPacket (stream.take n) fakeCookie
          realCookie).1 ++ stream.drop n) ∨
      (¬ ∃ n, SetupComplete stream n) ∧ rewriter.complete = false ∧
        rewriter.buffer = stream ∧ output = [])

section

variable {output : Bytes} {rewriter : X11AuthRewriter}
    (h : After fakeCookie realCookie stream output rewriter)
include h

theorem After.push (data : Bytes) :
    After fakeCookie realCookie (stream ++ data)
      (output ++ (rewriter.push data).1) (rewriter.push data).2 := by
  obtain ⟨hfake, hreal, ⟨n, hready, hcomplete, hbuffer, houtput⟩ |
    ⟨hnot, hcomplete, hbuffer, houtput⟩⟩ := h
  · rw [X11AuthRewriter.push, if_pos hcomplete]
    refine ⟨hfake, hreal, .inl ⟨n, hready.append data, hcomplete, hbuffer, ?_⟩⟩
    rw [houtput, take_append_of_le_length hready.2,
      drop_append_of_le_length hready.2, append_assoc]
  · rw [X11AuthRewriter.push, hcomplete, if_neg Bool.false_ne_true, houtput,
      nil_append, hbuffer]
    cases hlen : setupPacketLen (stream ++ data) with
    | none =>
      simp only [hlen]
      refine ⟨hfake, hreal, .inr ⟨?_, rfl, rfl, rfl⟩⟩
      rintro ⟨n, hn, -⟩
      rw [hlen] at hn
      cases hn
    | some n =>
      by_cases hshort : (stream ++ data).length < n
      · simp only [hlen, if_pos hshort]
        refine ⟨hfake, hreal, .inr ⟨?_, rfl, rfl, rfl⟩⟩
        rintro ⟨m, hm, hle⟩
        rw [hlen, some.injEq] at hm
        omega
      · simp only [hlen, if_neg hshort]
        refine ⟨hfake, hreal, .inl ⟨n, ⟨hlen, by omega⟩, rfl, rfl, ?_⟩⟩
        rw [hfake, hreal]

theorem After.pushAll (chunks : List Bytes) :
    After fakeCookie realCookie (stream ++ chunks.flatten)
      (output ++ (rewriter.pushAll chunks).1) (rewriter.pushAll chunks).2 := by
  induction chunks generalizing stream output rewriter with
  | nil =>
    rw [X11AuthRewriter.pushAll, flatten_nil, append_nil, append_nil]
    exact h
  | cons data chunks ih =>
    have hrest := ih (h.push data)
    rw [flatten_cons, ← append_assoc]
    rw [append_assoc output] at hrest
    exact hrest

end

theorem after_chunks (fakeCookie : Bytes) (realCookie : Option Bytes)
    (chunks : List Bytes) :
    After fakeCookie realCookie chunks.flatten
      (X11AuthRewriter.pushAll { fakeCookie, realCookie } chunks).1
      (X11AuthRewriter.pushAll { fakeCookie, realCookie } chunks).2 := by
  have hstart : After fakeCookie realCookie [] []
      { fakeCookie, realCookie } := by
    refine ⟨rfl, rfl, .inr ⟨?_, rfl, rfl, rfl⟩⟩
    rintro ⟨n, hn, -⟩
    have hnone : setupPacketLen [] = none := rfl
    rw [hnone] at hn
    cases hn
  exact hstart.pushAll chunks

/-- However a stream is cut, the rewriter swaps the cookie exactly where it is
to be swapped and holds back no more than a packet, if the byte order is legal
or no more than a packet has come, and if the real cookie is as long as the
fake one where it would be swapped. -/
theorem rewritten_iff (fakeCookie : Bytes) (realCookie : Option Bytes)
    (chunks : List Bytes) :
    Rewritten fakeCookie realCookie chunks.flatten
        (X11AuthRewriter.pushAll { fakeCookie, realCookie } chunks).1
        (X11AuthRewriter.pushAll { fakeCookie, realCookie } chunks).2.buffer ↔
      (LegalOrder chunks.flatten ∨ chunks.flatten.length ≤ maxSetupPacketLen) ∧
        ∀ n front back real, SetupComplete chunks.flatten n →
          Carries chunks.flatten front fakeCookie back →
          realCookie = some real → real.length = fakeCookie.length := by
  have hafter := after_chunks fakeCookie realCookie chunks
  generalize X11AuthRewriter.pushAll { fakeCookie, realCookie } chunks =
    pushed at hafter ⊢
  generalize chunks.flatten = stream at hafter ⊢
  obtain ⟨-, -, hcases⟩ := hafter
  constructor
  · intro h
    constructor
    · by_cases horder : LegalOrder stream
      · exact .inl horder
      · rcases hcases with ⟨n, hready, -⟩ | ⟨-, -, hbuffer, -⟩
        · exact absurd hready.legalOrder horder
        · exact .inr (hbuffer ▸ h.bounded)
    · intro n front back real hn hcarries hreal
      have hswapped := h.swaps hn.legalOrder ⟨n, hn⟩ front back hcarries real
        hreal
      rcases hcases with ⟨m, hready, -, -, houtput⟩ | ⟨hnot, -⟩
      · rcases rewrite_cases hready with hsame |
          ⟨other, -, -, hother, hlength, -⟩
        · rw [hsame, take_append_drop, hswapped] at houtput
          have hlength := congrArg List.length (houtput.trans hcarries.split)
          simp only [length_append] at hlength
          omega
        · rw [hreal, some.injEq] at hother
          rw [hother, hlength]
      · exact absurd ⟨n, hn⟩ hnot
  · rintro ⟨hshort, hlengths⟩
    refine ⟨fun _ hnot => ?_, fun _ _ front back hcarries real hreal => ?_,
      fun _ hready hor => ?_, ?_⟩
    · rcases hcases with ⟨n, hready, -⟩ | ⟨-, -, -, houtput⟩
      · exact absurd ⟨n, hready⟩ hnot
      · exact houtput
    · rcases hcases with ⟨n, hready, -, -, houtput⟩ | ⟨hnot, -⟩
      · rw [houtput, hreal]
        exact rewrite_of_carries hready hcarries
          (hlengths n front back real hready hcarries hreal)
      · exact absurd ‹∃ n, SetupComplete stream n› hnot
    · rcases hcases with ⟨n, hn, -, -, houtput⟩ | ⟨hnot, -⟩
      · have hsame : (rewriteX11AuthSetupPacket (stream.take n) fakeCookie
            realCookie).1 = stream.take n := by
          rcases rewrite_cases hn with hsame |
            ⟨real, front, back, hreal, -, hcarries⟩
          · exact hsame
          · rcases hor with hnone | hnot
            · exact absurd (hreal.symm.trans hnone) (some_ne_none _)
            · exact absurd hcarries (hnot front back)
        rw [houtput, hsame, take_append_drop]
      · exact absurd hready hnot
    · rcases hcases with ⟨n, -, -, hbuffer, -⟩ | ⟨hnot, -, hbuffer, -⟩
      · rw [hbuffer]
        exact Nat.zero_le _
      · rw [hbuffer]
        exact hshort.elim (fun horder => length_le_of_incomplete horder hnot) id

/-- A stream that begins with a zero byte is held back however long it is. -/
theorem zero_bytes_held :
    ¬ Rewritten (replicate 16 1) (some (replicate 16 2))
      [replicate 131085 0].flatten
      (X11AuthRewriter.pushAll
        { fakeCookie := replicate 16 1
          realCookie := some (replicate 16 2) }
        [replicate 131085 0]).1
      (X11AuthRewriter.pushAll
        { fakeCookie := replicate 16 1
          realCookie := some (replicate 16 2) }
        [replicate 131085 0]).2.buffer := by
  intro h
  have hillegal : ¬ LegalOrder [replicate 131085 0].flatten := by
    rw [LegalOrder, flatten_singleton, replicate_succ, head?_cons]
    decide
  obtain ⟨-, -, ⟨n, hready, -⟩ | ⟨-, -, hbuffer, -⟩⟩ :=
    after_chunks (replicate 16 1) (some (replicate 16 2)) [replicate 131085 0]
  · exact hillegal hready.legalOrder
  · have hbounded := h.bounded
    rw [hbuffer, flatten_singleton, length_replicate] at hbounded
    exact absurd hbounded (by decide)

end X11

end NiceTerm.Ssh
