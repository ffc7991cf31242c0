/-
Texts in which some characters are percent-encoded.  Such a text has one
reading as long as the percent sign itself is always encoded.
-/
import NiceTerm.Lib.RustSplit

namespace Percent

open List RustStr
open RustStr (Str)

/-- `{:X}` of four bits. -/
def hexDigit (digit : Nat) : Char :=
  Char.ofNat (if digit < 10 then 48 + digit else 55 + digit)

def hexDigits : Str := "0123456789ABCDEF".toList

def hexValue (c : Char) : Nat := hexDigits.idxOf c

/-- `%{:02X}` of a byte. -/
def encodeByte (byte : UInt8) : Str :=
  ['%', hexDigit (byte.toNat / 16), hexDigit (byte.toNat % 16)]

def encodeChar (c : Char) : Str := (utf8 [c]).flatMap encodeByte

/-- The bytes that a text with percent-encoded characters stands for. -/
def decode : Str → List UInt8
  | [] => []
  | c :: rest =>
    if c = '%' then
      match rest with
      | high :: low :: rest =>
        UInt8.ofNat (hexValue high * 16 + hexValue low) :: decode rest
      | _ => []
    else utf8 [c] ++ decode rest

/-- The text is the name with some of its characters encoded. -/
inductive Spells : Str → Str → Prop
  | nil : Spells [] []
  | plain {c : Char} {name text : Str} (h : c ≠ '%') (rest : Spells name text) :
      Spells (c :: name) (c :: text)
  | encoded (c : Char) {name text : Str} (rest : Spells name text) :
      Spells (c :: name) (encodeChar c ++ text)

theorem hexValue_hexDigit {value : Nat} (h : value < 16) :
    hexValue (hexDigit value) = value := by
  have hall : ∀ v : Fin 16, hexValue (hexDigit v) = v := by decide
  exact hall ⟨value, h⟩

theorem hexDigit_mem {value : Nat} (h : value < 16) :
    hexDigit value ∈ hexDigits := by
  have hall : ∀ v : Fin 16, hexDigit v ∈ hexDigits := by decide
  exact hall ⟨value, h⟩

theorem decode_encodeByte (byte : UInt8) (rest : Str) :
    decode (encodeByte byte ++ rest) = byte :: decode rest := by
  have hbyte : byte.toNat < 256 := byte.toNat_lt
  rw [encodeByte, cons_append, cons_append, cons_append,
    nil_append, decode, if_pos rfl]
  rw [hexValue_hexDigit (Nat.div_lt_of_lt_mul hbyte), hexValue_hexDigit
    (Nat.mod_lt _ (by decide)), Nat.div_add_mod', UInt8.ofNat_toNat]

theorem decode_encodeBytes (bytes : List UInt8) (rest : Str) :
    decode (bytes.flatMap encodeByte ++ rest) = bytes ++ decode rest := by
  induction bytes with
  | nil => rfl
  | cons byte bytes ih =>
    rw [flatMap_cons, append_assoc, decode_encodeByte, ih]
    rfl

theorem decode_plain {c : Char} (h : c ≠ '%') (rest : Str) :
    decode (c :: rest) = utf8 [c] ++ decode rest := by
  rw [decode.eq_def]
  dsimp only
  rw [if_neg h]

theorem utf8_cons (c : Char) (text : Str) :
    utf8 (c :: text) = utf8 [c] ++ utf8 text := by
  simp [utf8]

theorem Spells.decode {name text : Str} (h : Spells name text) :
    Percent.decode text = utf8 name := by
  induction h with
  | nil => rfl
  | @plain c name text hne rest ih => rw [decode_plain hne, ih, ← utf8_cons]
  | @encoded c name text rest ih =>
    rw [encodeChar, decode_encodeBytes, ih, ← utf8_cons]

theorem utf8_injective {first second : Str}
    (h : utf8 first = utf8 second) : first = second := by
  have hdecoded := congrArg fromUtf8 h
  rw [fromUtf8_utf8, fromUtf8_utf8] at hdecoded
  exact Option.some.inj hdecoded

/-- A text spells one name only. -/
theorem Spells.injective {first second text : Str} (hfirst : Spells first text)
    (hsecond : Spells second text) : first = second :=
  utf8_injective (hfirst.decode.symm.trans hsecond.decode)

/-- What is encoded consists of percent signs and digits. -/
theorem mem_encodeChar {c d : Char} (h : d ∈ encodeChar c) :
    d = '%' ∨ d ∈ hexDigits := by
  rw [encodeChar, mem_flatMap] at h
  obtain ⟨byte, -, hmem⟩ := h
  have hbyte : byte.toNat < 256 := byte.toNat_lt
  simp only [encodeByte, mem_cons, not_mem_nil, or_false] at hmem
  rcases hmem with rfl | rfl | rfl
  · exact .inl rfl
  · exact .inr (hexDigit_mem (Nat.div_lt_of_lt_mul hbyte))
  · exact .inr (hexDigit_mem (Nat.mod_lt _ (by decide)))

theorem encodeChar_cons (c : Char) : ∃ rest, encodeChar c = '%' :: rest := by
  have hne : utf8 [c] ≠ [] := by
    intro hnil
    have hempty : utf8 [c] = utf8 [] := hnil
    exact absurd (utf8_injective hempty) (cons_ne_nil c [])
  rw [encodeChar]
  cases hbytes : utf8 [c] with
  | nil => exact absurd hbytes hne
  | cons byte bytes => exact ⟨_, rfl⟩

end Percent
