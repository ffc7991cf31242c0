/-
UTF-8 as lists of bytes: the encoding of a text, and the lossy reading that
puts a replacement character for every maximal part of an ill-formed sequence.
-/
import Mathlib.Data.List.Basic

namespace Utf8

open List

abbrev Bytes := List UInt8

def encode (text : List Char) : Bytes :=
  text.flatMap String.utf8EncodeChar

def replacement : Char := Char.ofNat 0xFFFD

def isContinuation (byte : UInt8) : Bool :=
  0x80 ≤ byte && byte ≤ 0xBF

/-- The second bytes that a first byte admits; none if it takes no second. -/
def secondByte (first : UInt8) : Option (UInt8 × UInt8) :=
  if 0xC2 ≤ first && first ≤ 0xDF then some (0x80, 0xBF)
  else if first = 0xE0 then some (0xA0, 0xBF)
  else if first = 0xED then some (0x80, 0x9F)
  else if 0xE1 ≤ first && first ≤ 0xEF then some (0x80, 0xBF)
  else if first = 0xF0 then some (0x90, 0xBF)
  else if 0xF1 ≤ first && first ≤ 0xF3 then some (0x80, 0xBF)
  else if first = 0xF4 then some (0x80, 0x8F)
  else none

/-- How many bytes one replacement character stands for, behind the first. -/
def illFormedRest (first : UInt8) : Bytes → Nat
  | [] => 0
  | second :: rest =>
    match secondByte first with
    | none => 0
    | some (least, most) =>
      if least ≤ second && second ≤ most then
        if first < 0xE0 then 0
        else
          match rest with
          | third :: _ =>
            if 0xF0 ≤ first && isContinuation third then 2 else 1
          | [] => 1
      else 0

/-- `String::from_utf8_lossy` -/
def decodeLossy : Bytes → List Char
  | [] => []
  | first :: rest =>
    match (first :: rest).toByteArray.utf8DecodeChar? 0 with
    | some c => c :: decodeLossy (rest.drop (c.utf8Size - 1))
    | none => replacement :: decodeLossy (rest.drop (illFormedRest first rest))
termination_by bytes => bytes.length
decreasing_by
  all_goals simp only [length_cons, length_drop]
  all_goals omega

theorem encode_cons (c : Char) (text : List Char) :
    encode (c :: text) = String.utf8EncodeChar c ++ encode text := rfl

theorem ofNat_ne_255 {n : Nat} (h : n < 255) : UInt8.ofNat n ≠ 255 := by
  intro heq
  have hnat := congrArg UInt8.toNat heq
  rw [UInt8.toNat_ofNat'] at hnat
  change n % 256 = 255 at hnat
  omega

theorem utf8EncodeChar_ne_255 (c : Char) :
    (255 : UInt8) ∉ String.utf8EncodeChar c := by
  intro h
  have hbyte : ∃ n, n < 255 ∧ UInt8.ofNat n = 255 := by
    rw [String.utf8EncodeChar] at h
    split at h
    · simp only [mem_singleton] at h
      exact ⟨_, by omega, h.symm⟩
    · split at h
      · simp only [mem_cons, not_mem_nil, or_false] at h
        rcases h with h | h <;> exact ⟨_, by omega, h.symm⟩
      · split at h
        · simp only [mem_cons, not_mem_nil, or_false] at h
          rcases h with h | h | h <;> exact ⟨_, by omega, h.symm⟩
        · simp only [mem_cons, not_mem_nil, or_false] at h
          rcases h with h | h | h | h <;> exact ⟨_, by omega, h.symm⟩
  obtain ⟨n, hn, heq⟩ := hbyte
  exact ofNat_ne_255 hn heq

variable {c : Char}

theorem ascii_of_mem {byte : UInt8}
    (h : byte ∈ String.utf8EncodeChar c) (hbyte : byte.toNat < 128) :
    c.toNat = byte.toNat ∧ String.utf8EncodeChar c = [byte] := by
  have hno : ∀ n : Nat, 128 ≤ n → n < 256 → byte ≠ UInt8.ofNat n := by
    intro n hlow hhigh heq
    rw [heq, UInt8.toNat_ofNat', Nat.mod_eq_of_lt hhigh] at hbyte
    omega
  rw [String.utf8EncodeChar] at h ⊢
  split at h
  · rename_i hascii
    rw [mem_singleton] at h
    have hval : c.val.toNat < 256 := by omega
    rw [if_pos hascii, h, UInt8.toNat_ofNat', Nat.mod_eq_of_lt hval]
    exact ⟨rfl, rfl⟩
  · exfalso
    split at h
    · simp only [mem_cons, not_mem_nil, or_false] at h
      rcases h with h | h <;> exact hno _ (by omega) (by omega) h
    · split at h
      · simp only [mem_cons, not_mem_nil, or_false] at h
        rcases h with h | h | h <;> exact hno _ (by omega) (by omega) h
      · simp only [mem_cons, not_mem_nil, or_false] at h
        rcases h with h | h | h | h <;> exact hno _ (by omega) (by omega) h

theorem encode_ne_255 (text : List Char) : (255 : UInt8) ∉ encode text := by
  rw [encode, mem_flatMap]
  rintro ⟨c, -, h⟩
  exact utf8EncodeChar_ne_255 c h

/-- A character that can be read stands in front in its own encoding. -/
theorem decodeChar_some {bytes : Bytes} :
    bytes.toByteArray.utf8DecodeChar? 0 = some c ↔
      ∃ rest, bytes = String.utf8EncodeChar c ++ rest := by
  constructor
  · intro h
    obtain ⟨rest, hrest⟩ := ByteArray.exists_of_utf8DecodeChar?_eq_some h
    refine ⟨rest.data.toList, ?_⟩
    have hlist := congrArg (fun array : ByteArray => array.data.toList) hrest
    simpa using hlist
  · rintro ⟨rest, rfl⟩
    rw [toByteArray_append]
    exact ByteArray.utf8DecodeChar?_utf8EncodeChar_append

theorem drop_encoded {first : UInt8} {rest more : Bytes}
    (h : first :: rest = String.utf8EncodeChar c ++ more) :
    rest.drop (c.utf8Size - 1) = more := by
  have hlength := String.length_utf8EncodeChar c
  have hpos := c.utf8Size_pos
  have hdrop := congrArg (List.drop c.utf8Size) h
  rw [← hlength, drop_left, hlength] at hdrop
  rw [← hdrop]
  obtain ⟨n, hn⟩ : ∃ n, c.utf8Size = n + 1 := ⟨c.utf8Size - 1, by omega⟩
  rw [hn]
  rfl

theorem decodeLossy_of_some {bytes : Bytes} {more : Bytes}
    (h : bytes = String.utf8EncodeChar c ++ more) :
    decodeLossy bytes = c :: decodeLossy more := by
  cases bytes with
  | nil =>
    have hlength := congrArg List.length h
    rw [length_append, String.length_utf8EncodeChar] at hlength
    have hpos := c.utf8Size_pos
    simp at hlength
    omega
  | cons first rest =>
    rw [decodeLossy, decodeChar_some.mpr ⟨more, h⟩]
    simp only [drop_encoded h]

theorem decodeLossy_encode (text : List Char) :
    decodeLossy (encode text) = text := by
  induction text with
  | nil => rw [encode, flatMap_nil, decodeLossy]
  | cons c text ih =>
    rw [decodeLossy_of_some (encode_cons c text), ih]

theorem illFormedRest_le (first : UInt8) (rest : Bytes) :
    illFormedRest first rest ≤ 2 := by
  unfold illFormedRest
  split
  · omega
  · split
    · omega
    · split
      · split
        · omega
        · split
          · split <;> omega
          · omega
      · omega

/-- Reading a sequence and writing it again never makes it shorter. -/
theorem length_le_encode_decodeLossy (bytes : Bytes) :
    bytes.length ≤ (encode (decodeLossy bytes)).length := by
  fun_induction decodeLossy bytes with
  | case1 => simp
  | case2 first rest c hc ih =>
    obtain ⟨more, hmore⟩ := decodeChar_some.mp hc
    rw [drop_encoded hmore] at ih
    rw [drop_encoded hmore, encode_cons, hmore, length_append, length_append]
    omega
  | case3 first rest hnone ih =>
    have hle := illFormedRest_le first rest
    have hthree : (String.utf8EncodeChar replacement).length = 3 := by decide
    rw [encode_cons, length_append, hthree]
    simp only [length_cons, length_drop] at ih ⊢
    omega

/-- A sequence is written as it was read if and only if it is a text. -/
theorem encode_decodeLossy_iff (bytes : Bytes) :
    encode (decodeLossy bytes) = bytes ↔ ∃ text, bytes = encode text := by
  constructor
  · intro h
    exact ⟨decodeLossy bytes, h.symm⟩
  · rintro ⟨text, rfl⟩
    rw [decodeLossy_encode]

end Utf8
