/-
Base64 after RFC 4648: three bytes are written as four symbols, the rest of
one or two bytes with or without padding.  Only what is written in this way can
be read.
-/
import Mathlib.Data.List.GetD
import Mathlib.Data.List.Nodup

namespace Base64

abbrev Bytes := List UInt8

/-- The symbols of an alphabet, and whether texts are padded. -/
structure Engine where
  symbols : List Char
  padded : Bool
  size : symbols.length = 64
  distinct : symbols.Nodup
  noPad : '=' ∉ symbols

namespace Engine

open List Option

variable (e : Engine)

def symbol (i : Nat) : Char := e.symbols.getD i '='

def value (c : Char) : Option Nat :=
  if c ∈ e.symbols then some (e.symbols.idxOf c) else none

def padding (n : Nat) : List Char :=
  if e.padded then replicate n '=' else []

def encode : Bytes → List Char
  | [] => []
  | [a] => e.symbol (a.toNat / 4) :: e.symbol (a.toNat % 4 * 16) :: e.padding 2
  | [a, b] =>
    e.symbol (a.toNat / 4) :: e.symbol (a.toNat % 4 * 16 + b.toNat / 16) ::
      e.symbol (b.toNat % 16 * 4) :: e.padding 1
  | a :: b :: c :: rest =>
    e.symbol (a.toNat / 4) :: e.symbol (a.toNat % 4 * 16 + b.toNat / 16) ::
      e.symbol (b.toNat % 16 * 4 + c.toNat / 64) ::
      e.symbol (c.toNat % 64) :: encode rest

/-- The last byte, of whose second symbol four bits are left over. -/
def lastOne (c1 c2 : Char) : Option Bytes := do
  let x ← e.value c1
  let y ← e.value c2
  if y % 16 = 0 then some [UInt8.ofNat (x * 4 + y / 16)] else none

/-- The last two bytes, of whose third symbol two bits are left over. -/
def lastTwo (c1 c2 c3 : Char) : Option Bytes := do
  let x ← e.value c1
  let y ← e.value c2
  let z ← e.value c3
  if z % 4 = 0 then
    some [UInt8.ofNat (x * 4 + y / 16), UInt8.ofNat (y % 16 * 16 + z / 4)]
  else none

def decode : List Char → Option Bytes
  | [] => some []
  | [_] => none
  | [c1, c2] => if e.padded then none else e.lastOne c1 c2
  | [c1, c2, c3] => if e.padded then none else e.lastTwo c1 c2 c3
  | c1 :: c2 :: c3 :: c4 :: rest =>
    if e.padded = true ∧ c4 = '=' then
      if rest.isEmpty then
        if c3 = '=' then e.lastOne c1 c2 else e.lastTwo c1 c2 c3
      else none
    else do
      let x ← e.value c1
      let y ← e.value c2
      let z ← e.value c3
      let w ← e.value c4
      let back ← decode rest
      some (UInt8.ofNat (x * 4 + y / 16) ::
        UInt8.ofNat (y % 16 * 16 + z / 4) ::
        UInt8.ofNat (z % 4 * 64 + w) :: back)

variable {e}

theorem symbol_mem {i : Nat} (h : i < 64) : e.symbol i ∈ e.symbols := by
  have hi : i < e.symbols.length := e.size ▸ h
  rw [symbol, getD_eq_getElem _ _ hi]
  exact getElem_mem hi

theorem value_symbol {i : Nat} (h : i < 64) : e.value (e.symbol i) = some i := by
  have hi : i < e.symbols.length := e.size ▸ h
  rw [value, if_pos (symbol_mem h), symbol, getD_eq_getElem _ _ hi,
    e.distinct.idxOf_getElem]

theorem symbol_ne_pad {i : Nat} (h : i < 64) : e.symbol i ≠ '=' :=
  fun heq => e.noPad (heq ▸ symbol_mem h)

theorem ofNat_eq {n : Nat} {a : UInt8} (h : n = a.toNat) : UInt8.ofNat n = a := by
  rw [h, UInt8.ofNat_toNat]

theorem lastOne_symbols (a : UInt8) :
    e.lastOne (e.symbol (a.toNat / 4)) (e.symbol (a.toNat % 4 * 16)) =
      some [a] := by
  have ha := a.toNat_lt
  have hx : e.value (e.symbol (a.toNat / 4)) = some _ :=
    value_symbol (by omega)
  have hy : e.value (e.symbol (a.toNat % 4 * 16)) = some _ :=
    value_symbol (by omega)
  have hbyte : UInt8.ofNat (a.toNat / 4 * 4 + a.toNat % 4 * 16 / 16) = a :=
    ofNat_eq (by omega)
  have hleft : a.toNat % 4 * 16 % 16 = 0 := by omega
  simp only [lastOne, hx, hy, bind_eq_bind, bind_some, hbyte,
    hleft, ↓reduceIte]

theorem lastTwo_symbols (a b : UInt8) :
    e.lastTwo (e.symbol (a.toNat / 4))
        (e.symbol (a.toNat % 4 * 16 + b.toNat / 16))
        (e.symbol (b.toNat % 16 * 4)) = some [a, b] := by
  have ha := a.toNat_lt
  have hb := b.toNat_lt
  have hx : e.value (e.symbol (a.toNat / 4)) = some _ :=
    value_symbol (by omega)
  have hy : e.value (e.symbol (a.toNat % 4 * 16 + b.toNat / 16)) = some _ :=
    value_symbol (by omega)
  have hz : e.value (e.symbol (b.toNat % 16 * 4)) = some _ :=
    value_symbol (by omega)
  have hfirst : UInt8.ofNat
      (a.toNat / 4 * 4 + (a.toNat % 4 * 16 + b.toNat / 16) / 16) = a :=
    ofNat_eq (by omega)
  have hsecond : UInt8.ofNat
      ((a.toNat % 4 * 16 + b.toNat / 16) % 16 * 16 + b.toNat % 16 * 4 / 4) =
        b :=
    ofNat_eq (by omega)
  have hleft : b.toNat % 16 * 4 % 4 = 0 := by omega
  simp only [lastTwo, hx, hy, hz, bind_eq_bind, bind_some,
    hfirst, hsecond, hleft, ↓reduceIte]

theorem decode_encoded (bytes : Bytes) : e.decode (e.encode bytes) = some bytes := by
  induction bytes using encode.induct with
  | case1 => rfl
  | case2 a =>
    rw [encode, padding]
    cases hpadded : e.padded with
    | true =>
      have hnil : replicate 2 '=' = ['=', '='] := rfl
      simp only [↓reduceIte, hnil, decode, hpadded, and_self,
        isEmpty_nil, lastOne_symbols]
    | false =>
      simp only [Bool.false_eq_true, ↓reduceIte, decode, hpadded,
        lastOne_symbols]
  | case3 a b =>
    have hne : e.symbol (b.toNat % 16 * 4) ≠ '=' := symbol_ne_pad (by omega)
    rw [encode, padding]
    cases hpadded : e.padded with
    | true =>
      have hnil : replicate 1 '=' = ['='] := rfl
      simp only [↓reduceIte, hnil, decode, hpadded, and_self, hne,
        isEmpty_nil, lastTwo_symbols]
    | false =>
      simp only [Bool.false_eq_true, ↓reduceIte, decode, hpadded,
        lastTwo_symbols]
  | case4 a b c rest ih =>
    have ha := a.toNat_lt
    have hb := b.toNat_lt
    have hc := c.toNat_lt
    have hx : e.value (e.symbol (a.toNat / 4)) = some _ :=
      value_symbol (by omega)
    have hy : e.value (e.symbol (a.toNat % 4 * 16 + b.toNat / 16)) = some _ :=
      value_symbol (by omega)
    have hz : e.value (e.symbol (b.toNat % 16 * 4 + c.toNat / 64)) = some _ :=
      value_symbol (by omega)
    have hw : e.value (e.symbol (c.toNat % 64)) = some _ :=
      value_symbol (by omega)
    have hne : e.symbol (c.toNat % 64) ≠ '=' := symbol_ne_pad (by omega)
    have hfirst : UInt8.ofNat
        (a.toNat / 4 * 4 + (a.toNat % 4 * 16 + b.toNat / 16) / 16) = a :=
      ofNat_eq (by omega)
    have hsecond : UInt8.ofNat ((a.toNat % 4 * 16 + b.toNat / 16) % 16 * 16 +
          (b.toNat % 16 * 4 + c.toNat / 64) / 4) = b :=
      ofNat_eq (by omega)
    have hthird : UInt8.ofNat
        ((b.toNat % 16 * 4 + c.toNat / 64) % 4 * 64 + c.toNat % 64) = c :=
      ofNat_eq (by omega)
    rw [encode, decode]
    simp only [hne, and_false, ↓reduceIte, hx, hy, hz, hw, ih,
      bind_eq_bind, bind_some, hfirst, hsecond, hthird]

/-- A text has no characters but the symbols and the padding. -/
theorem mem_encode {bytes : Bytes} {c : Char} (h : c ∈ e.encode bytes) :
    c ∈ e.symbols ∨ c = '=' := by
  have hpad : ∀ {n : Nat}, c ∈ e.padding n → c = '=' := by
    intro n hmem
    rw [padding] at hmem
    split at hmem
    · exact (mem_replicate.mp hmem).2
    · cases hmem
  induction bytes using encode.induct with
  | case1 => cases h
  | case2 a =>
    have ha := a.toNat_lt
    rw [encode, mem_cons, mem_cons] at h
    rcases h with rfl | rfl | h
    · exact .inl (symbol_mem (by omega))
    · exact .inl (symbol_mem (by omega))
    · exact .inr (hpad h)
  | case3 a b =>
    have ha := a.toNat_lt
    have hb := b.toNat_lt
    rw [encode, mem_cons, mem_cons, mem_cons] at h
    rcases h with rfl | rfl | rfl | h
    · exact .inl (symbol_mem (by omega))
    · exact .inl (symbol_mem (by omega))
    · exact .inl (symbol_mem (by omega))
    · exact .inr (hpad h)
  | case4 a b c rest ih =>
    have ha := a.toNat_lt
    have hb := b.toNat_lt
    have hc := c.toNat_lt
    rw [encode, mem_cons, mem_cons, mem_cons, mem_cons]
      at h
    rcases h with rfl | rfl | rfl | rfl | h
    · exact .inl (symbol_mem (by omega))
    · exact .inl (symbol_mem (by omega))
    · exact .inl (symbol_mem (by omega))
    · exact .inl (symbol_mem (by omega))
    · exact ih h

end Engine

/-- Letters, digits and two more symbols. -/
def alphabet (second third : Char) : List Char :=
  (List.range' 65 26 ++ List.range' 97 26 ++ List.range' 48 10).map
    Char.ofNat ++ [second, third]

/-- The standard alphabet, with padding. -/
def standard : Engine where
  symbols := alphabet '+' '/'
  padded := true
  size := by decide +kernel
  distinct := by decide +kernel
  noPad := by decide +kernel

/-- The alphabet for file names, without padding. -/
def urlSafeNoPad : Engine where
  symbols := alphabet '-' '_'
  padded := false
  size := by decide +kernel
  distinct := by decide +kernel
  noPad := by decide +kernel

example : standard.encode [0x66, 0x6f, 0x6f, 0x62] = "Zm9vYg==".toList := by
  decide +kernel

end Base64
