/-
The frame patches of a remote desktop on the wire: the side that writes them,
and the side that reads them with the numbers of JavaScript.  Both take the
same patches, and the same bytes for each of them.
-/
import NiceTerm.Lib.ByteWords
import NiceTerm.Lib.Fallible
import NiceTerm.Lib.RustStr

namespace NiceTerm.RemoteDesktop

open ByteWords List
open Fallible
open RustStr (Str)

abbrev Bytes := List UInt8

def frameHeaderBytes : Nat := 44
def bytesPerPixel : Nat := 4

inductive RemoteDesktopPixelFormat
  | bgra8888
  | rgba8888
deriving DecidableEq, Repr

def RemoteDesktopPixelFormat.wireValue : RemoteDesktopPixelFormat → Nat
  | .bgra8888 => 1
  | .rgba8888 => 2

structure RemoteDesktopFramePatch where
  sequence : UInt64
  desktopWidth : UInt32
  desktopHeight : UInt32
  x : UInt32
  y : UInt32
  width : UInt32
  height : UInt32
  stride : UInt32
  pixelFormat : RemoteDesktopPixelFormat
  payload : Bytes
deriving DecidableEq, Repr

inductive AppError
  | config (message : Str)
deriving DecidableEq, Repr

def config (message : String) : AppError := .config message.toList

def checkedAdd32 (a b : UInt32) : Option UInt32 :=
  if a.toNat + b.toNat < 4294967296 then some (a + b) else none

/-- `checked_add` and `checked_mul` of two `usize` of 64 bits. -/
def checkedAdd64 (a b : Nat) : Option Nat :=
  if a + b < 18446744073709551616 then some (a + b) else none

def checkedMul64 (a b : Nat) : Option Nat :=
  if a * b < 18446744073709551616 then some (a * b) else none

def validateFramePatch (patch : RemoteDesktopFramePatch) :
    Except AppError Unit := do
  stopIf (patch.desktopWidth = 0 ∨ patch.desktopHeight = 0)
    (config "Remote desktop framebuffer dimensions must be non-zero")
  stopIf (patch.width = 0 ∨ patch.height = 0)
    (config "Remote desktop frame rectangle must be non-zero")
  let right ← orError (checkedAdd32 patch.x patch.width)
    (config "Remote desktop frame horizontal bounds overflow")
  let bottom ← orError (checkedAdd32 patch.y patch.height)
    (config "Remote desktop frame vertical bounds overflow")
  stopIf (right > patch.desktopWidth ∨ bottom > patch.desktopHeight)
    (config "Remote desktop frame rectangle exceeds framebuffer bounds")
  let rowBytes ← orError (checkedMul64 patch.width.toNat bytesPerPixel)
    (config "Remote desktop frame row size overflows")
  stopIf (patch.stride.toNat < rowBytes)
    (config "Remote desktop frame stride is too small")
  let requiredPayload ←
    orError (checkedMul64 patch.stride.toNat patch.height.toNat)
      (config "Remote desktop frame payload size overflows")
  stopIf (patch.payload.length < requiredPayload)
    (config "Remote desktop frame payload is too small")

def encodeFramePatch (patch : RemoteDesktopFramePatch) :
    Except AppError Bytes := do
  validateFramePatch patch
  let _ ← orError (checkedAdd64 frameHeaderBytes patch.payload.length)
    (config "Remote desktop frame size overflows")
  let header := toLe 8 patch.sequence.toNat ++ toLe 4 patch.desktopWidth.toNat
    ++ toLe 4 patch.desktopHeight.toNat ++ toLe 4 patch.x.toNat ++ toLe 4
    patch.y.toNat ++ toLe 4 patch.width.toNat ++ toLe 4 patch.height.toNat ++
    toLe 4 patch.stride.toNat ++ toLe 4 patch.pixelFormat.wireValue
  -- `u32::try_from`
  if patch.payload.length < 4294967296 then
    pure (header ++ toLe 4 patch.payload.length ++ patch.payload)
  else
    .error (config "Remote desktop frame payload exceeds the wire limit")

/-! The side that reads. -/

/-- A patch as JavaScript has it; its numbers are whole. -/
structure ReadFramePatch where
  sequence : Nat
  desktopWidth : Nat
  desktopHeight : Nat
  x : Nat
  y : Nat
  width : Nat
  height : Nat
  stride : Nat
  pixelFormat : RemoteDesktopPixelFormat
  payload : Bytes
deriving DecidableEq, Repr

/-- `Number.isSafeInteger` of a sum or product of whole numbers.  A result
beyond `2^53 - 1` may be rounded, but never to a safe one. -/
def isSafeInteger (n : Nat) : Bool := n ≤ 9007199254740991

def checked (result : Nat) (label : String) : Except Str Nat :=
  if isSafeInteger result then .ok result
  else .error ("Remote desktop frame patch ".toList ++ label.toList ++
    " overflows".toList)

def checkedProduct (left right : Nat) (label : String) : Except Str Nat :=
  checked (left * right) label

def checkedSum (left right : Nat) (label : String) : Except Str Nat :=
  checked (left + right) label

variable (buffer : Bytes)

/-- `getUint32` and `getBigUint64` with little-endian order. -/
def getLe (offset count : Nat) : Nat :=
  ofLe ((buffer.drop offset).take count)

def readFormat (format : Nat) : Option RemoteDesktopPixelFormat :=
  if format = 1 then some .bgra8888
  else if format = 2 then some .rgba8888
  else none

def decodeRemoteDesktopFramePatch :
    Except Str ReadFramePatch := do
  stopIf (buffer.length < frameHeaderBytes)
    "Remote desktop frame patch is too short".toList
  let sequence := getLe buffer 0 8
  let desktopWidth := getLe buffer 8 4
  let desktopHeight := getLe buffer 12 4
  let x := getLe buffer 16 4
  let y := getLe buffer 20 4
  let width := getLe buffer 24 4
  let height := getLe buffer 28 4
  let stride := getLe buffer 32 4
  let format := getLe buffer 36 4
  let payloadLength := getLe buffer 40 4
  let expectedLength ←
    checkedSum frameHeaderBytes payloadLength "payload length"
  stopIf (buffer.length ≠ expectedLength)
    "Remote desktop frame patch payload length mismatch".toList
  stopIf (desktopWidth = 0 ∨ desktopHeight = 0)
    "Remote desktop frame patch desktop size is empty".toList
  stopIf (width = 0 ∨ height = 0)
    "Remote desktop frame patch rectangle is empty".toList
  let rowBytes ← checkedProduct width bytesPerPixel "row size"
  stopIf (stride < rowBytes)
    "Remote desktop frame patch stride is too small".toList
  let requiredPayloadLength ← checkedProduct stride height "payload size"
  stopIf (payloadLength < requiredPayloadLength)
    ("Remote desktop frame patch payload is too small".toList ++
      " for stride and height".toList)
  let right ← checkedSum x width "horizontal bounds"
  let bottom ← checkedSum y height "vertical bounds"
  stopIf (right > desktopWidth ∨ bottom > desktopHeight)
    "Remote desktop frame patch rectangle exceeds desktop bounds".toList
  match readFormat format with
  | none =>
    .error ("Unsupported remote desktop pixel format ".toList ++
      Nat.toDigits 10 format)
  | some pixelFormat =>
    pure ⟨sequence, desktopWidth, desktopHeight, x, y, width, height, stride,
      pixelFormat, (buffer.drop frameHeaderBytes).take payloadLength⟩

/-- Bytes written into a buffer. -/
def setBytes (offset : Nat) (bytes : Bytes) : Bytes :=
  buffer.take offset ++ bytes ++ buffer.drop (offset + bytes.length)

/-- `setUint32` and `setBigUint64` keep the lowest bytes. -/
def setLe (offset count value : Nat) : Bytes :=
  setBytes buffer offset (toLe count value)

def createRemoteDesktopFramePatchBuffer (patch : ReadFramePatch) : Bytes :=
  let buffer := replicate (frameHeaderBytes + patch.payload.length) 0
  let buffer := setLe buffer 0 8 patch.sequence
  let buffer := setLe buffer 8 4 patch.desktopWidth
  let buffer := setLe buffer 12 4 patch.desktopHeight
  let buffer := setLe buffer 16 4 patch.x
  let buffer := setLe buffer 20 4 patch.y
  let buffer := setLe buffer 24 4 patch.width
  let buffer := setLe buffer 28 4 patch.height
  let buffer := setLe buffer 32 4 patch.stride
  let buffer := setLe buffer 36 4 patch.pixelFormat.wireValue
  let buffer := setLe buffer 40 4 patch.payload.length
  setBytes buffer frameHeaderBytes patch.payload

/-- The patch as the other side is to read it. -/
def RemoteDesktopFramePatch.read (patch : RemoteDesktopFramePatch) :
    ReadFramePatch :=
  ⟨patch.sequence.toNat, patch.desktopWidth.toNat, patch.desktopHeight.toNat,
    patch.x.toNat, patch.y.toNat, patch.width.toNat, patch.height.toNat,
    patch.stride.toNat, patch.pixelFormat, patch.payload⟩

/-- A rectangle with some pixels inside a desktop, and the pixels. -/
structure ReadFramePatch.Sendable (patch : ReadFramePatch) : Prop where
  desktop : patch.desktopWidth ≠ 0 ∧ patch.desktopHeight ≠ 0
  rectangle : patch.width ≠ 0 ∧ patch.height ≠ 0
  inside : patch.x + patch.width ≤ patch.desktopWidth ∧
    patch.y + patch.height ≤ patch.desktopHeight
  stride : 4 * patch.width ≤ patch.stride
  payload : patch.stride * patch.height ≤ patch.payload.length
  wire : patch.payload.length ≤ 4294967295

/-- The fields are as long as they are on the wire. -/
structure ReadFramePatch.Fits (patch : ReadFramePatch) : Prop where
  sequence : patch.sequence < size 8
  desktopWidth : patch.desktopWidth < size 4
  desktopHeight : patch.desktopHeight < size 4
  x : patch.x < size 4
  y : patch.y < size 4
  width : patch.width < size 4
  height : patch.height < size 4
  stride : patch.stride < size 4

/-- The bytes of a patch. -/
def ReadFramePatch.onWire (patch : ReadFramePatch) : Bytes :=
  toLe 8 patch.sequence ++ (toLe 4 patch.desktopWidth ++
    (toLe 4 patch.desktopHeight ++ (toLe 4 patch.x ++ (toLe 4 patch.y ++
      (toLe 4 patch.width ++ (toLe 4 patch.height ++ (toLe 4 patch.stride ++
        (toLe 4 patch.pixelFormat.wireValue ++
          (toLe 4 patch.payload.length ++ patch.payload)))))))))

theorem fits_read (patch : RemoteDesktopFramePatch) : patch.read.Fits :=
  ⟨patch.sequence.toNat_lt, patch.desktopWidth.toNat_lt,
    patch.desktopHeight.toNat_lt, patch.x.toNat_lt, patch.y.toNat_lt,
    patch.width.toNat_lt, patch.height.toNat_lt, patch.stride.toNat_lt⟩

variable {patch : ReadFramePatch}

theorem ReadFramePatch.Fits.exists_read
    (h : patch.Fits) : ∃ sent : RemoteDesktopFramePatch, sent.read = patch := by
  refine ⟨⟨UInt64.ofNat patch.sequence, UInt32.ofNat patch.desktopWidth,
    UInt32.ofNat patch.desktopHeight, UInt32.ofNat patch.x,
    UInt32.ofNat patch.y, UInt32.ofNat patch.width, UInt32.ofNat patch.height,
    UInt32.ofNat patch.stride, patch.pixelFormat, patch.payload⟩, ?_⟩
  simp only [RemoteDesktopFramePatch.read, UInt64.toNat_ofNat_of_lt'
    h.sequence, UInt32.toNat_ofNat_of_lt' h.desktopWidth,
    UInt32.toNat_ofNat_of_lt' h.desktopHeight, UInt32.toNat_ofNat_of_lt' h.x,
    UInt32.toNat_ofNat_of_lt' h.y, UInt32.toNat_ofNat_of_lt' h.width,
    UInt32.toNat_ofNat_of_lt' h.height, UInt32.toNat_ofNat_of_lt' h.stride]

/-! Writing. -/

theorem checkedAdd32_eq_some {a b c : UInt32} :
    checkedAdd32 a b = some c ↔ c.toNat = a.toNat + b.toNat := by
  have hc : c.toNat < 4294967296 := c.toNat_lt
  rw [checkedAdd32]
  constructor
  · intro h
    split at h
    · rename_i hfit
      rw [← Option.some.inj h, UInt32.toNat_add]
      exact Nat.mod_eq_of_lt hfit
    · exact absurd h.symm (Option.some_ne_none c)
  · intro h
    have hfit : a.toNat + b.toNat < 4294967296 := h ▸ hc
    have hsum : a + b = c := by
      apply UInt32.toNat_inj.mp
      rw [UInt32.toNat_add, h]
      exact Nat.mod_eq_of_lt hfit
    rw [if_pos hfit, hsum]

theorem checkedMul64_of_lt {a b : Nat} (ha : a < 4294967296)
    (hb : b < 4294967296) : checkedMul64 a b = some (a * b) := by
  apply if_pos
  calc
    a * b < 4294967296 * 4294967296 := Nat.mul_lt_mul'' ha hb
    _ = 18446744073709551616 := rfl

theorem exists_checkedAdd32 (a b bound : UInt32) :
    (∃ sum, checkedAdd32 a b = some sum ∧ sum ≤ bound) ↔
      a.toNat + b.toNat ≤ bound.toNat := by
  have hbound : bound.toNat < 4294967296 := bound.toNat_lt
  constructor
  · rintro ⟨sum, hsum, hle⟩
    rw [checkedAdd32_eq_some] at hsum
    rw [← hsum]
    exact UInt32.le_iff_toNat_le.mp hle
  · intro h
    have hfit : a.toNat + b.toNat < 4294967296 := by omega
    refine ⟨a + b, if_pos hfit, ?_⟩
    rw [UInt32.le_iff_toNat_le, UInt32.toNat_add]
    exact (Nat.mod_le _ _).trans h

theorem validateFramePatch_ok (patch : RemoteDesktopFramePatch) :
    validateFramePatch patch = .ok () ↔
      (patch.desktopWidth ≠ 0 ∧ patch.desktopHeight ≠ 0) ∧
      (patch.width ≠ 0 ∧ patch.height ≠ 0) ∧
      (patch.x.toNat + patch.width.toNat ≤ patch.desktopWidth.toNat ∧
        patch.y.toNat + patch.height.toNat ≤ patch.desktopHeight.toNat) ∧
      4 * patch.width.toNat ≤ patch.stride.toNat ∧
      patch.stride.toNat * patch.height.toNat ≤ patch.payload.length := by
  have hrow : checkedMul64 patch.width.toNat bytesPerPixel =
      some (patch.width.toNat * 4) :=
    checkedMul64_of_lt patch.width.toNat_lt (by decide)
  have hpayload : checkedMul64 patch.stride.toNat patch.height.toNat =
      some (patch.stride.toNat * patch.height.toNat) :=
    checkedMul64_of_lt patch.stride.toNat_lt patch.height.toNat_lt
  have hwidth :=
    exists_checkedAdd32 patch.x patch.width patch.desktopWidth
  have hheight :=
    exists_checkedAdd32 patch.y patch.height patch.desktopHeight
  simp only [validateFramePatch, bind_eq_ok, stopIf_eq_ok, orError_eq_ok, hrow,
    hpayload, Option.some.injEq, not_or]
  rw [← hwidth, ← hheight]
  constructor
  · rintro ⟨-, hdesktop, -, hrect, right, hright, bottom, hbottom, -, hinside,
      row, rfl, -, hstride, required, rfl, hlength⟩
    refine ⟨hdesktop, hrect, ⟨?_, ?_⟩, ?_, ?_⟩
    · exact ⟨right, hright, UInt32.not_lt.mp hinside.1⟩
    · exact ⟨bottom, hbottom, UInt32.not_lt.mp hinside.2⟩
    · omega
    · exact Nat.not_lt.mp hlength
  · rintro ⟨hdesktop, hrect, ⟨⟨right, hright, hxbound⟩,
      bottom, hbottom, hybound⟩, hstride, hlength⟩
    refine ⟨⟨⟩, hdesktop, ⟨⟩, hrect, right, hright, bottom, hbottom, ⟨⟩, ?_, _,
      rfl, ⟨⟩, ?_, _, rfl, ?_⟩
    · exact ⟨UInt32.not_lt.mpr hxbound, UInt32.not_lt.mpr hybound⟩
    · omega
    · exact Nat.not_lt.mpr hlength

theorem toNat_ne_zero (a : UInt32) : a.toNat ≠ 0 ↔ a ≠ 0 := by
  rw [ne_eq, ne_eq, ← UInt32.toNat_inj]
  rfl

open ReadFramePatch

theorem encodeFramePatch_ok {patch : RemoteDesktopFramePatch} {bytes : Bytes} :
    encodeFramePatch patch = .ok bytes ↔
      patch.read.Sendable ∧ bytes = patch.read.onWire := by
  have hvalid := validateFramePatch_ok patch
  simp only [encodeFramePatch, bind_eq_ok, orError_eq_ok]
  constructor
  · rintro ⟨_, hok, total, -, hbytes⟩
    split at hbytes
    · rename_i hwire
      obtain ⟨hdesktop, hrect, hinside, hstride, hlength⟩ := hvalid.mp hok
      constructor
      · refine ⟨?_, ?_, hinside, hstride, hlength, Nat.le_of_lt_succ hwire⟩
        · exact ⟨(toNat_ne_zero _).mpr hdesktop.1,
            (toNat_ne_zero _).mpr hdesktop.2⟩
        · exact ⟨(toNat_ne_zero _).mpr hrect.1, (toNat_ne_zero _).mpr hrect.2⟩
      · rw [← Except.ok.inj hbytes]
        simp only [onWire, RemoteDesktopFramePatch.read, append_assoc]
    · cases hbytes
  · rintro ⟨hsend, rfl⟩
    have hwire := hsend.wire
    change patch.payload.length ≤ 4294967295 at hwire
    have hok : validateFramePatch patch = .ok () := by
      refine hvalid.mpr ⟨?_, ?_, hsend.inside, hsend.stride, hsend.payload⟩
      · exact ⟨(toNat_ne_zero _).mp hsend.desktop.1,
          (toNat_ne_zero _).mp hsend.desktop.2⟩
      · exact ⟨(toNat_ne_zero _).mp hsend.rectangle.1,
          (toNat_ne_zero _).mp hsend.rectangle.2⟩
    refine ⟨(), hok, frameHeaderBytes + patch.payload.length, ?_, ?_⟩
    · apply if_pos
      rw [frameHeaderBytes]
      omega
    · rw [if_pos (Nat.lt_succ_of_le hwire)]
      simp only [onWire, RemoteDesktopFramePatch.read, append_assoc]
      rfl

/-! Reading. -/

theorem getLe_front (n : Nat) {x : Nat} (rest : Bytes) (h : x < size n) :
    getLe (toLe n x ++ rest) 0 n = x := by
  rw [getLe, drop_zero, take_left' (length_toLe n x), ofLe_toLe h]

theorem getLe_behind (n x : Nat) (rest : Bytes) {offset : Nat} (count : Nat)
    (h : n ≤ offset) :
    getLe (toLe n x ++ rest) offset count = getLe rest (offset - n) count := by
  have hlength := length_toLe n x
  rw [getLe, getLe, drop_append, hlength,
    drop_of_length_le (hlength.trans_le h), nil_append]

theorem checked_eq_ok {result n : Nat} {label : String} :
    checked result label = .ok n ↔ result ≤ 9007199254740991 ∧ result = n := by
  rw [checked, isSafeInteger]
  by_cases h : result ≤ 9007199254740991 <;> simp [h]

theorem readFormat_eq_some {format : Nat} {pixelFormat} :
    readFormat format = some pixelFormat ↔ format = pixelFormat.wireValue := by
  rw [readFormat]
  cases pixelFormat with
  | bgra8888 => grind [RemoteDesktopPixelFormat.wireValue]
  | rgba8888 => grind [RemoteDesktopPixelFormat.wireValue]

theorem toLe_getLe {buffer : Bytes} {offset count behind : Nat}
    (hbehind : behind = offset + count) (h : behind ≤ buffer.length) :
    toLe count (getLe buffer offset count) ++ buffer.drop behind =
      buffer.drop offset := by
  have hlength : ((buffer.drop offset).take count).length = count := by
    rw [length_take, length_drop]
    omega
  have hread := toLe_ofLe ((buffer.drop offset).take count)
  rw [hlength] at hread
  rw [getLe, hread, hbehind, ← drop_drop, take_append_drop]

theorem getLe_lt_size {buffer : Bytes} {offset count : Nat}
    (h : offset + count ≤ buffer.length) :
    getLe buffer offset count < size count := by
  have hlt := ofLe_lt_size ((buffer.drop offset).take count)
  rw [length_take, length_drop, Nat.min_eq_left (by omega)] at hlt
  exact hlt

theorem length_onWire (patch : ReadFramePatch) :
    patch.onWire.length = frameHeaderBytes + patch.payload.length := by
  simp only [onWire, length_append, length_toLe, frameHeaderBytes]
  omega

theorem decode_onWire (hfits : patch.Fits) (hsend : patch.Sendable) :
    decodeRemoteDesktopFramePatch patch.onWire = .ok patch := by
  obtain ⟨hdesktop, hrect, hinside, hstride, hpayload, hwire⟩ := hsend
  have hlength : patch.payload.length < size 4 := Nat.lt_succ_of_le hwire
  have hformat : patch.pixelFormat.wireValue < size 4 := by
    cases patch.pixelFormat <;> decide
  have hbehind : patch.onWire.drop frameHeaderBytes = patch.payload := by
    simp (disch := decide) only [onWire, ← append_assoc]
    apply drop_left'
    simp only [length_append, length_toLe, frameHeaderBytes]
  have hread : readFormat patch.pixelFormat.wireValue =
      some patch.pixelFormat := readFormat_eq_some.mpr rfl
  have hfits4 : size 4 = 4294967296 := rfl
  have hsize := hfits.x
  have hwidth := hfits.width
  have hheight := hfits.height
  have hy := hfits.y
  have hlen := length_onWire patch
  simp only [decodeRemoteDesktopFramePatch, bind_eq_ok, stopIf_eq_ok,
    checkedSum, checkedProduct, checked_eq_ok, hlen, hbehind]
  simp (disch := decide) only [onWire, getLe_behind, getLe_front
    _ _ hfits.sequence, getLe_front _ _ hfits.desktopWidth, getLe_front _ _
    hfits.desktopHeight, getLe_front _ _ hfits.x, getLe_front _ _ hfits.y,
    getLe_front _ _ hfits.width, getLe_front _ _ hfits.height, getLe_front _ _
    hfits.stride, getLe_front _ _ hformat, getLe_front _ _ hlength,
    Nat.reduceSub, hread, take_length, frameHeaderBytes, bytesPerPixel]
  refine ⟨⟨⟩, ?_, _, ⟨?_, rfl⟩, ⟨⟩, ?_, ⟨⟩, ?_, ⟨⟩, ?_, _, ⟨?_, rfl⟩, ⟨⟩, ?_, _,
    ⟨?_, rfl⟩, ⟨⟩, ?_, _, ⟨?_, rfl⟩, _, ⟨?_, rfl⟩, ⟨⟩, ?_, rfl⟩
  all_goals omega

/-- Whatever the reader accepts is the bytes of the patch it returns. -/
theorem decode_eq_ok {buffer : Bytes}
    (h : decodeRemoteDesktopFramePatch buffer = .ok patch) :
    patch.Fits ∧ patch.Sendable ∧ buffer = patch.onWire := by
  simp only [decodeRemoteDesktopFramePatch, bind_eq_ok, stopIf_eq_ok,
    checkedSum, checkedProduct, checked_eq_ok, not_or] at h
  obtain ⟨_, hlong, expected, ⟨hsafe, rfl⟩, _, hexact, _, hdesktop, _, hrect, _,
    ⟨-, rfl⟩, _, hstride, _, ⟨-, rfl⟩, _, hpayload, right, ⟨-, rfl⟩, bottom,
    ⟨-, rfl⟩, _, hinside, h⟩ := h
  rw [not_not] at hexact
  rw [frameHeaderBytes] at hexact hlong
  split at h
  · cases h
  · rename_i pixelFormat hformat
    rw [readFormat_eq_some] at hformat
    have hbehind : (buffer.drop frameHeaderBytes).take (getLe buffer 40 4) =
        buffer.drop frameHeaderBytes := by
      apply take_of_length_le
      rw [length_drop, frameHeaderBytes]
      omega
    rw [hbehind] at h
    have hcount : getLe buffer 40 4 =
        (buffer.drop frameHeaderBytes).length := by
      rw [length_drop, frameHeaderBytes]
      omega
    have hshort : getLe buffer 40 4 < size 4 := getLe_lt_size (by omega)
    have hlast : (buffer.drop frameHeaderBytes).length ≤ 4294967295 :=
      hcount ▸ Nat.le_of_lt_succ hshort
    cases h
    refine ⟨⟨?_, ?_, ?_, ?_, ?_, ?_, ?_, ?_⟩, ?_, ?_⟩
    all_goals try (apply getLe_lt_size; omega)
    · refine ⟨hdesktop, hrect, ⟨?_, ?_⟩, ?_, ?_, hlast⟩
      · exact Nat.not_lt.mp hinside.1
      · exact Nat.not_lt.mp hinside.2
      · rw [Nat.mul_comm]
        exact Nat.not_lt.mp hstride
      · exact (Nat.not_lt.mp hpayload).trans_eq hcount
    · change buffer = toLe 8 _ ++ (toLe 4 _ ++ (toLe 4 _ ++ (toLe 4 _ ++
        (toLe 4 _ ++ (toLe 4 _ ++ (toLe 4 _ ++ (toLe 4 _ ++ (toLe 4 _ ++
          (toLe 4 _ ++ buffer.drop frameHeaderBytes)))))))))
      rw [← hformat, ← hcount]
      -- From the last field to the first, the buffer grows together.
      simp (disch := omega) only [frameHeaderBytes, toLe_getLe, drop_zero]

/-! Writing on the side that reads, for its tests. -/

def zeros (count : Nat) : Bytes := replicate count 0

theorem setBytes_zeros {front bytes : Bytes} {offset rest : Nat}
    (h : front.length = offset) :
    setBytes (front ++ zeros (bytes.length + rest)) offset bytes =
      (front ++ bytes) ++ zeros rest := by
  have hbehind : (front ++ zeros (bytes.length + rest)).drop
      (offset + bytes.length) = zeros rest := by
    rw [← h, ← drop_drop, drop_left, zeros, drop_replicate,
      Nat.add_sub_cancel_left, zeros]
  rw [setBytes, take_left' h, hbehind]

theorem setLe_zeros {front : Bytes} {offset rest : Nat} (count value : Nat)
    (h : front.length = offset) :
    setLe (front ++ zeros (count + rest)) offset count value =
      (front ++ toLe count value) ++ zeros rest := by
  have hset := @setBytes_zeros front (toLe count value) offset rest h
  rw [length_toLe] at hset
  exact hset

theorem create_eq_onWire (patch : ReadFramePatch) :
    createRemoteDesktopFramePatchBuffer patch = patch.onWire := by
  have htotal : replicate (frameHeaderBytes + patch.payload.length) 0 =
      [] ++ zeros (8 + (4 + (4 + (4 + (4 + (4 + (4 + (4 + (4 + (4 +
        (patch.payload.length + 0))))))))))) := by
    rw [zeros, nil_append, frameHeaderBytes]
    congr 1
    omega
  simp only [createRemoteDesktopFramePatchBuffer, htotal]
  simp (disch := simp) only [setLe_zeros]
  rw [setBytes_zeros]
  · simp only [onWire, append_assoc, nil_append,
      zeros, replicate_zero, append_nil]
  · simp only [length_append, length_nil, length_toLe, frameHeaderBytes]

theorem encodeFramePatch_isOk (patch : RemoteDesktopFramePatch) :
    (∃ bytes, encodeFramePatch patch = .ok bytes) ↔ patch.read.Sendable := by
  simp only [encodeFramePatch_ok, exists_and_left, exists_eq, and_true]

theorem sendable_read_iff (patch : RemoteDesktopFramePatch) :
    patch.read.Sendable ↔ (patch.desktopWidth ≠ 0 ∧ patch.desktopHeight ≠ 0) ∧
      (patch.width ≠ 0 ∧ patch.height ≠ 0) ∧
      (patch.x.toNat + patch.width.toNat ≤ patch.desktopWidth.toNat ∧
        patch.y.toNat + patch.height.toNat ≤ patch.desktopHeight.toNat) ∧
      4 * patch.width.toNat ≤ patch.stride.toNat ∧
      patch.stride.toNat * patch.height.toNat ≤ patch.payload.length ∧
      patch.payload.length ≤ 4294967295 := by
  constructor
  · rintro ⟨hdesktop, hrect, hinside, hstride, hpayload, hwire⟩
    exact ⟨⟨(toNat_ne_zero _).mp hdesktop.1, (toNat_ne_zero _).mp hdesktop.2⟩,
      ⟨(toNat_ne_zero _).mp hrect.1, (toNat_ne_zero _).mp hrect.2⟩,
      hinside, hstride, hpayload, hwire⟩
  · rintro ⟨hdesktop, hrect, hinside, hstride, hpayload, hwire⟩
    exact ⟨⟨(toNat_ne_zero _).mpr hdesktop.1,
        (toNat_ne_zero _).mpr hdesktop.2⟩,
      ⟨(toNat_ne_zero _).mpr hrect.1, (toNat_ne_zero _).mpr hrect.2⟩,
      hinside, hstride, hpayload, hwire⟩

theorem checkedSum_fields {a b : Nat} (ha : a < size 4) (hb : b < size 4)
    (label : String) : checkedSum a b label = .ok (a + b) := by
  have hfour : size 4 = 4294967296 := rfl
  rw [checkedSum, checked_eq_ok]
  exact ⟨by omega, rfl⟩

theorem checkedProduct_row {a : Nat} (ha : a < size 4) (label : String) :
    checkedProduct a bytesPerPixel label = .ok (a * bytesPerPixel) := by
  have hfour : size 4 = 4294967296 := rfl
  rw [checkedProduct, checked_eq_ok, bytesPerPixel]
  exact ⟨by omega, rfl⟩

/-- No size is wrapped: it is the exact one, or too large for any payload. -/
structure SizesExact : Prop where
  row : ∀ patch : RemoteDesktopFramePatch,
    checkedMul64 patch.width.toNat bytesPerPixel =
      some (patch.width.toNat * bytesPerPixel)
  required : ∀ patch : RemoteDesktopFramePatch,
    checkedMul64 patch.stride.toNat patch.height.toNat =
      some (patch.stride.toNat * patch.height.toNat)
  frame : ∀ patch : RemoteDesktopFramePatch, patch.read.Sendable →
    checkedAdd64 frameHeaderBytes patch.payload.length =
      some (frameHeaderBytes + patch.payload.length)
  readSum : ∀ (a b : Nat) (label : String), a < size 4 → b < size 4 →
    checkedSum a b label = .ok (a + b)
  readRow : ∀ (a : Nat) (label : String), a < size 4 →
    checkedProduct a bytesPerPixel label = .ok (a * bytesPerPixel)
  readRequired : ∀ (a b : Nat) (label : String),
    checkedProduct a b label = .ok (a * b) ∨ size 4 < a * b

theorem sizes_exact : SizesExact := by
  refine ⟨?_, ?_, ?_, fun a b label ha hb => checkedSum_fields ha hb label,
    fun a label ha => checkedProduct_row ha label, ?_⟩
  · exact fun patch => checkedMul64_of_lt patch.width.toNat_lt (by decide)
  · exact fun patch =>
      checkedMul64_of_lt patch.stride.toNat_lt patch.height.toNat_lt
  · intro patch hsend
    have hwire := hsend.wire
    change patch.payload.length ≤ 4294967295 at hwire
    apply if_pos
    rw [frameHeaderBytes]
    omega
  · intro a b label
    have hfour : size 4 = 4294967296 := rfl
    rw [checkedProduct, checked_eq_ok, hfour]
    generalize a * b = product
    omega

/-- Both sides take the same patches, and the same bytes for each of them. -/
theorem frame_codec_agrees :
    (∀ patch : RemoteDesktopFramePatch,
      (∃ bytes, encodeFramePatch patch = .ok bytes) ↔
        (patch.desktopWidth ≠ 0 ∧ patch.desktopHeight ≠ 0) ∧
        (patch.width ≠ 0 ∧ patch.height ≠ 0) ∧
        (patch.x.toNat + patch.width.toNat ≤ patch.desktopWidth.toNat ∧
          patch.y.toNat + patch.height.toNat ≤ patch.desktopHeight.toNat) ∧
        4 * patch.width.toNat ≤ patch.stride.toNat ∧
        patch.stride.toNat * patch.height.toNat ≤ patch.payload.length ∧
        patch.payload.length ≤ 4294967295) ∧
    (∀ (patch : RemoteDesktopFramePatch) (bytes : Bytes),
      encodeFramePatch patch = .ok bytes →
        decodeRemoteDesktopFramePatch bytes = .ok patch.read) ∧
    (∀ (buffer : Bytes) (patch : ReadFramePatch),
      decodeRemoteDesktopFramePatch buffer = .ok patch →
        (∃ sent : RemoteDesktopFramePatch, sent.read = patch ∧
          encodeFramePatch sent = .ok buffer) ∧
        createRemoteDesktopFramePatchBuffer patch = buffer) ∧
    SizesExact := by
  refine ⟨?_, ?_, ?_, sizes_exact⟩
  · intro patch
    rw [encodeFramePatch_isOk, sendable_read_iff]
  · intro patch bytes hencode
    obtain ⟨hsend, rfl⟩ := encodeFramePatch_ok.mp hencode
    exact decode_onWire (fits_read patch) hsend
  · intro buffer patch hdecode
    obtain ⟨hfits, hsend, rfl⟩ := decode_eq_ok hdecode
    obtain ⟨sent, rfl⟩ := hfits.exists_read
    exact ⟨⟨sent, rfl, encodeFramePatch_ok.mpr ⟨hsend, rfl⟩⟩,
      create_eq_onWire _⟩

end NiceTerm.RemoteDesktop
