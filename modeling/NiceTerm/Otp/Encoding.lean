/-
The two encodings of a one-time-password URI: base32 without padding, and
percent encoding.
-/
import NiceTerm.Lib.ByteWords
import NiceTerm.Lib.Percent

namespace NiceTerm.Otp

open BitGroups RustStr
open RustStr (Str)

abbrev Bytes := List UInt8

namespace Base32

open List

def alphabet : Str := "ABCDEFGHIJKLMNOPQRSTUVWXYZ234567".toList

def symbol (index : Nat) : Char := alphabet.getD index 'A'

/-- The `while` loop behind each byte, and the number of bits left. -/
def drain (buffer : Nat) : Nat → List Nat × Nat
  | bitsLeft + 5 =>
    let rest := drain buffer bitsLeft
    (((buffer >>> bitsLeft) &&& 31) :: rest.1, rest.2)
  | bitsLeft => ([], bitsLeft)

/-- The indices of the symbols; the buffer is an `u16`. -/
def encodeFrom (buffer bitsLeft : Nat) : Bytes → List Nat
  | [] =>
    if bitsLeft > 0 then [(buffer <<< (5 - bitsLeft)) % 65536 &&& 31] else []
  | byte :: rest =>
    let buffer := (buffer <<< 8) % 65536 ||| byte.toNat
    let drained := drain buffer (bitsLeft + 8)
    drained.1 ++ encodeFrom buffer drained.2 rest

def encode (data : Bytes) : Str := (encodeFrom 0 0 data).map symbol

inductive DecodeBase32Error
  | invalidChar (c : Char)
deriving DecidableEq, Repr

/-- `A-Z`, `a-z` and `2-7`. -/
def valueOf (b : UInt8) : Option Nat :=
  if 65 ≤ b ∧ b ≤ 90 then some (b.toNat - 65)
  else if 97 ≤ b ∧ b ≤ 122 then some (b.toNat - 97)
  else if 50 ≤ b ∧ b ≤ 55 then some (b.toNat - 50 + 26)
  else none

/-- The loop over the bytes of the text; the buffer is an `u32`. -/
def decodeFrom (buffer bitsLeft : Nat) :
    Bytes → Except DecodeBase32Error Bytes
  | [] => .ok []
  | b :: rest =>
    match valueOf b with
    | none => .error (.invalidChar (Char.ofNat b.toNat))
    | some val =>
      let buffer := (buffer <<< 5) % 4294967296 ||| val
      if 8 ≤ bitsLeft + 5 then do
        let output ← decodeFrom buffer (bitsLeft + 5 - 8) rest
        pure (UInt8.ofNat (buffer >>> (bitsLeft + 5 - 8)) :: output)
      else decodeFrom buffer (bitsLeft + 5) rest

def decode (data : Str) : Except DecodeBase32Error Bytes :=
  decodeFrom 0 0 (utf8 data)

/-! Neither loop loses a bit. -/

theorem bits_mask (x : Nat) : bits 5 (x &&& 31) = bits 5 x := by
  have hmask : ∀ i < 5, Nat.testBit 31 i = true := by decide
  apply bits_congr
  intro i hi
  rw [Nat.testBit_and, hmask i hi, Bool.and_true]

theorem drain_bits (buffer n : Nat) :
    (drain buffer n).1.flatMap (bits 5) ++ bits (drain buffer n).2 buffer =
        bits n buffer ∧ (drain buffer n).2 < 5 := by
  fun_induction drain buffer n with
  | case1 n rest ih =>
    have hsplit : bits (n + 5) buffer =
        bits 5 (buffer >>> n) ++ bits n buffer := by
      rw [Nat.add_comm, bits_add]
    refine ⟨?_, ih.2⟩
    rw [flatMap_cons, append_assoc, ih.1, bits_mask]
    exact hsplit.symm
  | case2 n hsmall =>
    refine ⟨nil_append _, ?_⟩
    by_contra hlarge
    obtain ⟨m, rfl⟩ := Nat.exists_eq_add_of_le' (Nat.not_lt.mp hlarge)
    exact hsmall m rfl

/-- Whatever is shifted out of a buffer was emitted before. -/
theorem bits_shift {left width size buffer digit : Nat} {capacity : Nat}
    (hcapacity : ∀ x i, (x % capacity).testBit i =
      (decide (i < size) && x.testBit i))
    (hfit : left + width ≤ size)
    (hdigit : ∀ i, width ≤ i → digit.testBit i = false) :
    bits (left + width) ((buffer <<< width) % capacity ||| digit) =
      bits left buffer ++ bits width digit := by
  apply bits_append
  · intro i hi
    have hout : decide (i ≥ width) = false :=
      decide_eq_false (Nat.not_le.mpr hi)
    rw [Nat.testBit_or, hcapacity, Nat.testBit_shiftLeft, hout, Bool.false_and,
      Bool.and_false, Bool.false_or]
  · intro i hi
    have hin : decide (width + i < size) = true := decide_eq_true (by omega)
    have hup : decide (width + i ≥ width) = true := decide_eq_true (by omega)
    rw [Nat.testBit_or, hcapacity, Nat.testBit_shiftLeft, hin, hup,
      hdigit _ (Nat.le_add_right _ _), Nat.add_sub_cancel_left, Bool.true_and,
      Bool.true_and, Bool.or_false]

theorem testBit_of_lt {x : Nat} (n : Nat) (h : x >>> n = 0) :
    ∀ i, n ≤ i → x.testBit i = false := by
  intro i hi
  obtain ⟨k, rfl⟩ := Nat.exists_eq_add_of_le hi
  rw [← Nat.testBit_shiftRight, h, Nat.zero_testBit]

theorem encodeFrom_bits (buffer left : Nat) (hleft : left < 5)
    (data : Bytes) : ∃ pad < 5,
      (encodeFrom buffer left data).flatMap (bits 5) =
        bits left buffer ++ (ofBytes data ++ replicate pad false) := by
  induction data generalizing buffer left with
  | nil =>
    by_cases hzero : left = 0
    · subst hzero
      exact ⟨0, by decide, rfl⟩
    · have hpos : left > 0 := Nat.pos_of_ne_zero hzero
      have hpad : bits (left + (5 - left))
          ((buffer <<< (5 - left)) % 65536 ||| 0) =
            bits left buffer ++ bits (5 - left) 0 :=
        bits_shift (fun x i => Nat.testBit_mod_two_pow x 16 i) (by omega)
          fun i _ => Nat.zero_testBit i
      rw [Nat.or_zero, bits_zero, Nat.add_sub_of_le (by omega)] at hpad
      refine ⟨5 - left, by omega, ?_⟩
      rw [encodeFrom, if_pos hpos, flatMap_singleton, bits_mask, hpad]
      rfl
  | cons byte rest ih =>
    have hbyte : byte.toNat >>> 8 = 0 := by
      rw [Nat.shiftRight_eq_div_pow]
      exact Nat.div_eq_of_lt byte.toNat_lt
    have hshift : bits (left + 8) ((buffer <<< 8) % 65536 ||| byte.toNat) =
          bits left buffer ++ bits 8 byte.toNat :=
      bits_shift (fun x i => Nat.testBit_mod_two_pow x 16 i) (by omega)
        (testBit_of_lt 8 hbyte)
    obtain ⟨hemitted, hsmall⟩ :=
      drain_bits ((buffer <<< 8) % 65536 ||| byte.toNat) (left + 8)
    obtain ⟨pad, hpad, hrest⟩ := ih
      ((buffer <<< 8) % 65536 ||| byte.toNat) _ hsmall
    refine ⟨pad, hpad, ?_⟩
    rw [encodeFrom, flatMap_append, hrest, ← append_assoc, hemitted, hshift]
    simp only [ofBytes, flatMap_cons, append_assoc]

theorem encodeFrom_lt (buffer left : Nat) (data : Bytes) :
    ∀ index ∈ encodeFrom buffer left data, index < 32 := by
  have hmask (x : Nat) : x &&& 31 < 32 := Nat.lt_succ_of_le Nat.and_le_right
  have hdrain (buffer n : Nat) : ∀ index ∈ (drain buffer n).1, index < 32 := by
    fun_induction drain buffer n with
    | case1 n rest ih => exact forall_mem_cons.mpr ⟨hmask _, ih⟩
    | case2 n hsmall => exact forall_mem_nil _
  induction data generalizing buffer left with
  | nil =>
    rw [encodeFrom]
    split
    · exact forall_mem_singleton.mpr (hmask _)
    · exact forall_mem_nil _
  | cons byte rest ih =>
    rw [encodeFrom, forall_mem_append]
    exact ⟨hdrain _ _, ih _ _⟩

theorem symbol_read {index : Nat} (h : index < 32) :
    ∃ b, utf8 [symbol index] = [b] ∧ valueOf b = some index := by
  have hall : ∀ i : Fin 32, utf8 [symbol i] = [UInt8.ofNat (symbol i).toNat] ∧
        valueOf (UInt8.ofNat (symbol i).toNat) = some i.val := by
    decide +kernel
  exact ⟨_, hall ⟨index, h⟩⟩

theorem decodeFrom_cons (buffer left : Nat) {b : UInt8} {val : Nat}
    (hval : valueOf b = some val) (rest : Bytes) :
    decodeFrom buffer left (b :: rest) =
      if 8 ≤ left + 5 then do
        let output ← decodeFrom ((buffer <<< 5) % 4294967296 ||| val)
          (left + 5 - 8) rest
        pure (UInt8.ofNat (((buffer <<< 5) % 4294967296 ||| val) >>>
          (left + 5 - 8)) :: output)
      else
        decodeFrom ((buffer <<< 5) % 4294967296 ||| val) (left + 5) rest := by
  rw [decodeFrom, hval]

/-- The lowest byte of a number has its eight lowest bits. -/
theorem bits_ofNat (x : Nat) : bits 8 (UInt8.ofNat x).toNat = bits 8 x := by
  apply bits_congr
  intro i hi
  have hmod := Nat.testBit_mod_two_pow x 8 i
  rw [decide_eq_true hi, Bool.true_and] at hmod
  rw [UInt8.toNat_ofNat']
  exact hmod

theorem decodeFrom_bits (buffer left : Nat) (hleft : left < 8)
    {indices : List Nat} (hindices : ∀ index ∈ indices, index < 32) :
    ∃ output rest, decodeFrom buffer left
        (utf8 (indices.map symbol)) = .ok output ∧
      ofBytes output ++ rest = bits left buffer ++ indices.flatMap (bits 5) ∧
      rest.length < 8 := by
  induction indices generalizing buffer left with
  | nil =>
    refine ⟨[], bits left buffer, rfl, ?_, ?_⟩
    · rw [flatMap_nil, append_nil]
      rfl
    · rwa [length_bits]
  | cons index indices ih =>
    rw [forall_mem_cons] at hindices
    obtain ⟨b, hbyte, hvalue⟩ := symbol_read hindices.1
    have hindex : index >>> 5 = 0 := by
      rw [Nat.shiftRight_eq_div_pow]
      exact Nat.div_eq_of_lt hindices.1
    have hshift : bits (left + 5) ((buffer <<< 5) % 4294967296 ||| index) =
          bits left buffer ++ bits 5 index :=
      bits_shift (fun x i => Nat.testBit_mod_two_pow x 32 i) (by omega)
        (testBit_of_lt 5 hindex)
    rw [map_cons, Percent.utf8_cons, hbyte, singleton_append, decodeFrom_cons _
      _ hvalue, flatMap_cons, ← append_assoc, ← hshift]
    by_cases hfull : 8 ≤ left + 5
    · obtain ⟨output, rest, hdecode, hbits, hrest⟩ :=
        ih ((buffer <<< 5) % 4294967296 ||| index) (left + 5 - 8) (by omega)
          hindices.2
      have hsplit : left + 5 = 8 + (left + 5 - 8) := by omega
      rw [if_pos hfull, hdecode]
      refine ⟨_, rest, rfl, ?_, hrest⟩
      rw [hsplit, bits_add, Nat.add_sub_cancel_left, ofBytes, flatMap_cons,
        bits_ofNat, append_assoc, append_assoc, ← hbits]
      rfl
    · obtain ⟨output, rest, hdecode, hbits, hrest⟩ :=
        ih ((buffer <<< 5) % 4294967296 ||| index) (left + 5) (by omega)
          hindices.2
      rw [if_neg hfull]
      exact ⟨output, rest, hdecode, hbits, hrest⟩

/-- Base32 decoding undoes encoding. -/
theorem decode_encoded (data : Bytes) : decode (encode data) = .ok data := by
  obtain ⟨pad, hpad, hencode⟩ := encodeFrom_bits 0 0 (by decide) data
  obtain ⟨output, rest, hdecode, hbits, hrest⟩ :=
    decodeFrom_bits 0 0 (by decide) (encodeFrom_lt 0 0 data)
  have hsame : output = data := by
    apply bytes_eq_of_bits (hbits.trans hencode) hrest
    rw [length_replicate]
    omega
  rw [decode, encode, hdecode, hsame]

end Base32

namespace Url

open List

def safeChars : Bytes :=
  utf8 ("ABCDEFGHIJKLMNOPQRSTUVWXYZabcdefghijklmnopqrstuvwxyz".toList ++
    "0123456789-_.~".toList)

def encodeByte (b : UInt8) : Str :=
  if b ∈ safeChars then [Char.ofNat b.toNat] else Percent.encodeByte b

def encode (data : Bytes) : Str := data.flatMap encodeByte

inductive DecodeUrlError
  | invalidHex (text : Str)
  | unexpectedEnd
  | invalidUtf8
deriving DecidableEq, Repr

def hexDigit (b : UInt8) : Option Nat :=
  if 48 ≤ b ∧ b ≤ 57 then some (b.toNat - 48)
  else if 65 ≤ b ∧ b ≤ 70 then some (b.toNat - 55)
  else if 97 ≤ b ∧ b ≤ 102 then some (b.toNat - 87)
  else none

/-- `u8::from_str_radix` of two characters; a plus sign may stand in front. -/
def fromStrRadix (high low : UInt8) : Option UInt8 :=
  if high = 43 then (hexDigit low).map UInt8.ofNat
  else do
    let a ← hexDigit high
    let b ← hexDigit low
    some (UInt8.ofNat (a * 16 + b))

/-- The loop over the bytes of the text. -/
def decodeBytes : Bytes → Except DecodeUrlError Bytes
  | [] => .ok []
  | b :: rest =>
    if b = 37 then
      match rest with
      | high :: low :: rest =>
        match fromStrRadix high low with
        | some byte => do
          let bytes ← decodeBytes rest
          pure (byte :: bytes)
        | none =>
          .error (.invalidHex ((fromUtf8 [high, low]).getD []))
      | _ => .error .unexpectedEnd
    else do
      let bytes ← decodeBytes rest
      pure (b :: bytes)

def decode (data : Str) : Except DecodeUrlError Str := do
  let bytes ← decodeBytes (utf8 data)
  match fromUtf8 bytes with
  | some text => pure text
  | none => .error .invalidUtf8

theorem safe_byte {b : UInt8} (h : b ∈ safeChars) :
    utf8 [Char.ofNat b.toNat] = [b] ∧ b ≠ 37 := by
  have hall : ∀ b ∈ safeChars,
      utf8 [Char.ofNat b.toNat] = [b] ∧ b ≠ 37 := by decide +kernel
  exact hall b h

theorem digit_byte {value : Nat} (h : value < 16) :
    ∃ b, utf8 [Percent.hexDigit value] = [b] ∧
      hexDigit b = some value ∧ b ≠ 43 := by
  have hall : ∀ v : Fin 16, utf8 [Percent.hexDigit v] =
        [UInt8.ofNat (Percent.hexDigit v).toNat] ∧
      hexDigit (UInt8.ofNat (Percent.hexDigit v).toNat) = some v.val ∧
      UInt8.ofNat (Percent.hexDigit v).toNat ≠ 43 := by decide +kernel
  exact ⟨_, hall ⟨value, h⟩⟩

theorem utf8_append (front back : Str) :
    utf8 (front ++ back) = utf8 front ++ utf8 back :=
  flatMap_append

theorem decodeBytes_encodeByte (b : UInt8) (rest : Bytes) :
    decodeBytes (utf8 (encodeByte b) ++ rest) = (do
        let bytes ← decodeBytes rest
        pure (b :: bytes)) := by
  rw [encodeByte]
  split
  · rename_i hsafe
    obtain ⟨hbyte, hne⟩ := safe_byte hsafe
    rw [hbyte, singleton_append, decodeBytes.eq_def]
    dsimp only
    rw [if_neg hne]
  · have hb : b.toNat < 256 := b.toNat_lt
    obtain ⟨high, hhigh, hhighValue, hsign⟩ :=
      digit_byte (Nat.div_lt_of_lt_mul hb : b.toNat / 16 < 16)
    obtain ⟨low, hlow, hlowValue, -⟩ :=
      digit_byte (Nat.mod_lt b.toNat (by decide) : b.toNat % 16 < 16)
    have htext : utf8 (Percent.encodeByte b) = [37, high, low] := by
      rw [Percent.encodeByte, Percent.utf8_cons '%',
        Percent.utf8_cons (Percent.hexDigit (b.toNat / 16)), hhigh, hlow]
      rfl
    have hradix : fromStrRadix high low = some b := by
      rw [fromStrRadix, if_neg hsign, hhighValue, hlowValue]
      simp only [Option.bind_eq_bind, Option.bind_some, Nat.div_add_mod',
        UInt8.ofNat_toNat]
    rw [htext]
    simp only [cons_append, nil_append, decodeBytes, hradix, ↓reduceIte]

theorem decodeBytes_encode (data : Bytes) :
    decodeBytes (utf8 (encode data)) = .ok data := by
  induction data with
  | nil => rfl
  | cons b data ih =>
    rw [encode, flatMap_cons, utf8_append, decodeBytes_encodeByte]
    change (do let bytes ← decodeBytes (utf8 (encode data))
               pure (b :: bytes)) = _
    rw [ih]
    rfl

/-- Percent decoding undoes encoding. -/
theorem decode_encoded (text : Str) :
    decode (encode (utf8 text)) = .ok text := by
  rw [decode, decodeBytes_encode]
  simp only [bind, Except.bind, fromUtf8_utf8]
  rfl

/-- The signs that end a part of a URI. -/
def marks : List Char := ['?', '&', '=', ':']

/-- They are never left as they are. -/
theorem not_mem_encode {c : Char} (h : c ∈ marks)
    (data : Bytes) : c ∉ encode data := by
  have hsafe : (marks.all fun c =>
      safeChars.all fun b => c != Char.ofNat b.toNat) = true := by
    decide +kernel
  have hencoded : (marks.all fun c =>
      c != '%' && (List.range 16).all fun v => c != Percent.hexDigit v) =
        true := by
    decide +kernel
  simp only [all_eq_true, bne_iff_ne, Bool.and_eq_true, mem_range]
    at hsafe hencoded
  intro hmem
  obtain ⟨b, -, hc⟩ := mem_flatMap.mp hmem
  rw [encodeByte] at hc
  split at hc
  · rename_i hb
    exact hsafe c h b hb (mem_singleton.mp hc)
  · have hb : b.toNat < 256 := b.toNat_lt
    have hpercent := (hencoded c h).1
    have hhigh := (hencoded c h).2 (b.toNat / 16) (by omega)
    have hlow := (hencoded c h).2 (b.toNat % 16) (by omega)
    simp only [Percent.encodeByte, mem_cons, not_mem_nil, or_false] at hc
    rcases hc with rfl | rfl | rfl
    · exact hpercent rfl
    · exact hhigh rfl
    · exact hlow rfl

end Url

end NiceTerm.Otp
