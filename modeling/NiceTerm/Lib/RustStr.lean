/-
Rust strings as lists of Unicode scalar values.  Lengths and offsets are
counted in UTF-8 bytes, as `str::len` and `str::split_at` count them.
-/
import Mathlib.Data.List.Basic
import Mathlib.Algebra.Order.Group.Nat

namespace RustStr

open List

abbrev Str := List Char

instance : LawfulBEq Str := inferInstanceAs (LawfulBEq (List Char))

def len : Str → Nat
  | [] => 0
  | c :: cs => c.utf8Size + len cs

def isCharBoundary : Str → Nat → Bool
  | _, 0 => true
  | [], _ + 1 => false
  | c :: cs, n + 1 =>
    if n + 1 < c.utf8Size then false
    else isCharBoundary cs (n + 1 - c.utf8Size)

/-- `str::split_at`.  The source calls it at character boundaries only. -/
def splitAt : Str → Nat → Str × Str
  | [], _ => ([], [])
  | c :: cs, n =>
    if n < c.utf8Size then ([], c :: cs)
    else (c :: (splitAt cs (n - c.utf8Size)).1,
      (splitAt cs (n - c.utf8Size)).2)

/-- The loop `while index > 0 && !text.is_char_boundary(index) { index -= 1 }`. -/
def floorCharBoundary (text : Str) : Nat → Nat
  | 0 => 0
  | n + 1 =>
    if isCharBoundary text (n + 1) then n + 1
    else floorCharBoundary text n

/-- `str::as_bytes`. -/
def utf8 (text : Str) : List UInt8 :=
  text.flatMap String.utf8EncodeChar

def fromUtf8 (bytes : List UInt8) : Option Str :=
  (String.fromUTF8? ⟨bytes.toArray⟩).map String.toList

def isWhitespace (c : Char) : Bool :=
  (0x09 ≤ c.toNat && c.toNat ≤ 0x0D) || c.toNat == 0x20 || c.toNat == 0x85 ||
    c.toNat == 0xA0 || c.toNat == 0x1680 ||
    (0x2000 ≤ c.toNat && c.toNat ≤ 0x200A) || c.toNat == 0x2028 || c.toNat ==
    0x2029 || c.toNat == 0x202F || c.toNat == 0x205F || c.toNat == 0x3000

def trim (text : Str) : Str :=
  (text.dropWhile isWhitespace).reverse.dropWhile isWhitespace |>.reverse

/-- `str::rsplit_once` at one character. -/
def rsplitOnce (separator : Char) : Str → Option (Str × Str)
  | [] => none
  | c :: cs =>
    match rsplitOnce separator cs with
    | some (front, back) => some (c :: front, back)
    | none => if c = separator then some ([], cs) else none

def isAsciiDigit (c : Char) : Bool :=
  '0'.toNat ≤ c.toNat && c.toNat ≤ '9'.toNat

/-- The value of a run of digits; `none` when another character stands in it. -/
def parseDigits (value : Nat) : Str → Option Nat
  | [] => some value
  | c :: cs =>
    if isAsciiDigit c then parseDigits (value * 10 + (c.toNat - '0'.toNat)) cs
    else none

/-- `i32::MIN` and `i32::MAX`. -/
def i32Min : Int := -2147483648

def i32Max : Int := 2147483647

def parseI32 (text : Str) : Option Int :=
  let signed : Bool × Str :=
    match text with
    | '-' :: digits => (true, digits)
    | '+' :: digits => (false, digits)
    | digits => (false, digits)
  if signed.2 = [] then none
  else
    match parseDigits 0 signed.2 with
    | none => none
    | some magnitude =>
      let value : Int := if signed.1 then -magnitude else magnitude
      if i32Min ≤ value ∧ value ≤ i32Max then some value else none

def digitChar (digit : Nat) : Char :=
  Char.ofNat ('0'.toNat + digit)

/-- The decimal digits of a number. -/
def decimal (value : Nat) : Str :=
  if value < 10 then [digitChar value]
  else decimal (value / 10) ++ [digitChar (value % 10)]
termination_by value

def isControl (c : Char) : Bool :=
  c.toNat < 0x20 || (0x7f ≤ c.toNat && c.toNat ≤ 0x9f)

def decimalI32 (value : Int) : Str :=
  if value < 0 then '-' :: decimal value.natAbs else decimal value.natAbs

@[simp] theorem len_nil : len [] = 0 := rfl

@[simp] theorem len_cons (c : Char) (cs : Str) :
    len (c :: cs) = c.utf8Size + len cs := rfl

@[simp] theorem len_append (a b : Str) : len (a ++ b) = len a + len b := by
  induction a with
  | nil => simp
  | cons c cs ih =>
    rw [cons_append, len_cons, len_cons, ih, Nat.add_assoc]

theorem len_replicate (n : Nat) (c : Char) :
    len (replicate n c) = n * c.utf8Size := by
  induction n with
  | zero => simp
  | succ n ih => rw [replicate_succ, len_cons, ih, Nat.succ_mul, Nat.add_comm]

variable {text : Str}

theorem len_pos_of_ne_nil (h : text ≠ []) : 0 < len text := by
  cases text with
  | nil => exact absurd rfl h
  | cons c cs =>
    have hc := c.utf8Size_pos
    simp only [len_cons]
    omega

@[simp] theorem splitAt_append (text : Str) (n : Nat) :
    (splitAt text n).1 ++ (splitAt text n).2 = text := by
  induction text generalizing n with
  | nil => rfl
  | cons c cs ih =>
    by_cases h : n < c.utf8Size
    · simp [splitAt, h]
    · simp [splitAt, h, ih]

theorem floorCharBoundary_le (text : Str) (n : Nat) :
    floorCharBoundary text n ≤ n := by
  induction n with
  | zero => exact Nat.le_refl 0
  | succ n ih =>
    by_cases h : isCharBoundary text (n + 1)
    · simp [floorCharBoundary, h]
    · simp only [floorCharBoundary, h, Bool.false_eq_true, ↓reduceIte]
      omega

/-- Splitting at a character boundary splits at exactly that offset. -/
theorem len_splitAt {n : Nat}
    (h : isCharBoundary text n = true) : len (splitAt text n).1 = n := by
  induction text generalizing n with
  | nil =>
    cases n with
    | zero => rfl
    | succ n => simp [isCharBoundary] at h
  | cons c cs ih =>
    have hc := c.utf8Size_pos
    cases n with
    | zero => simp [splitAt, hc]
    | succ n =>
      by_cases hlt : n + 1 < c.utf8Size
      · simp [isCharBoundary, hlt] at h
      · simp only [isCharBoundary, hlt, ↓reduceIte] at h
        simp only [splitAt, hlt, ↓reduceIte, len_cons, ih h]
        omega

theorem isCharBoundary_floorCharBoundary (text : Str) (n : Nat) :
    isCharBoundary text (floorCharBoundary text n) = true := by
  induction n with
  | zero => simp [floorCharBoundary, isCharBoundary]
  | succ n ih =>
    by_cases h : isCharBoundary text (n + 1) = true
    · simp [floorCharBoundary, h]
    · simpa [floorCharBoundary, h] using ih

/-- Rounding down reaches every boundary below. -/
theorem le_floorCharBoundary {m n : Nat} (hle : m ≤ n)
    (h : isCharBoundary text m = true) : m ≤ floorCharBoundary text n := by
  induction n with
  | zero => omega
  | succ n ih =>
    by_cases hn : isCharBoundary text (n + 1) = true
    · simpa [floorCharBoundary, hn] using hle
    · simp only [floorCharBoundary, hn, Bool.false_eq_true, ↓reduceIte]
      apply ih
      by_cases heq : m = n + 1
      · exact absurd (heq ▸ h) hn
      · omega

theorem floorCharBoundary_eq_self_iff {n : Nat} :
    floorCharBoundary text n = n ↔ isCharBoundary text n = true := by
  constructor
  · intro h
    rw [← h]
    exact isCharBoundary_floorCharBoundary text n
  · intro h
    exact Nat.le_antisymm (floorCharBoundary_le text n)
      (le_floorCharBoundary (Nat.le_refl n) h)

theorem isCharBoundary_len_append (front back : Str) :
    isCharBoundary (front ++ back) (len front) = true := by
  induction front with
  | nil => cases back <;> rfl
  | cons c front ih =>
    obtain ⟨n, hn⟩ : ∃ n, len (c :: front) = n + 1 :=
      Nat.exists_eq_add_one.mpr (len_pos_of_ne_nil (cons_ne_nil c front))
    rw [len_cons] at hn
    rw [cons_append, len_cons, hn, isCharBoundary,
      if_neg (by omega), ← hn, Nat.add_sub_cancel_left, ih]

theorem splitAt_len_append (front back : Str) :
    splitAt (front ++ back) (len front) = (front, back) := by
  induction front with
  | nil =>
    cases back with
    | nil => rfl
    | cons c back =>
      rw [nil_append, len_nil, splitAt,
        if_pos c.utf8Size_pos]
  | cons c front ih =>
    rw [cons_append, len_cons, splitAt,
      if_neg (by omega), Nat.add_sub_cancel_left, ih]

theorem splitAt_zero (text : Str) : (splitAt text 0).1 = [] := by
  cases text with
  | nil => rfl
  | cons c cs => simp [splitAt, c.utf8Size_pos]

theorem not_mem_of_rsplitOnce {separator : Char}
    (h : rsplitOnce separator text = none) : separator ∉ text := by
  induction text with
  | nil => exact not_mem_nil
  | cons c cs ih =>
    cases hrest : rsplitOnce separator cs with
    | some parts => simp [rsplitOnce, hrest] at h
    | none =>
      by_cases hc : c = separator
      · simp [rsplitOnce, hrest, hc] at h
      · exact not_mem_cons_of_ne_of_not_mem (Ne.symm hc) (ih hrest)

theorem rsplitOnce_eq_some {separator : Char} {front back : Str}
    (h : rsplitOnce separator text = some (front, back)) :
    text = front ++ separator :: back ∧ separator ∉ back := by
  induction text generalizing front with
  | nil => simp [rsplitOnce] at h
  | cons c cs ih =>
    cases hrest : rsplitOnce separator cs with
    | some parts =>
      simp only [rsplitOnce, hrest, Option.some.injEq, Prod.mk.injEq] at h
      obtain ⟨rfl, rfl⟩ := h
      obtain ⟨hcs, hmem⟩ := ih hrest
      exact ⟨by rw [hcs, cons_append], hmem⟩
    | none =>
      by_cases hc : c = separator
      · simp only [rsplitOnce, hrest, hc, ↓reduceIte, Option.some.injEq,
          Prod.mk.injEq] at h
        obtain ⟨rfl, rfl⟩ := h
        exact ⟨by rw [hc, nil_append], not_mem_of_rsplitOnce hrest⟩
      · simp [rsplitOnce, hrest, hc] at h

theorem rsplitOnce_append {separator : Char} (front : Str) {back : Str}
    (h : separator ∉ back) :
    rsplitOnce separator (front ++ separator :: back) =
      some (front, back) := by
  have hback : rsplitOnce separator back = none := by
    cases hsplit : rsplitOnce separator back with
    | none => rfl
    | some parts =>
      obtain ⟨hparts, -⟩ := rsplitOnce_eq_some hsplit
      exact absurd (by simp [hparts]) h
  induction front with
  | nil => simp [rsplitOnce, hback]
  | cons c cs ih => simp [rsplitOnce, ih]

theorem digitChar_spec {digit : Nat} (h : digit < 10) :
    isAsciiDigit (digitChar digit) = true ∧
      (digitChar digit).toNat - '0'.toNat = digit := by
  have hall : ∀ digit < 10, isAsciiDigit (digitChar digit) = true ∧
      (digitChar digit).toNat - '0'.toNat = digit := by
    decide
  exact hall digit h

variable (value : Nat)

theorem isAsciiDigit_of_mem_decimal :
    ∀ c ∈ decimal value, isAsciiDigit c = true := by
  fun_induction decimal value with
  | case1 value hsmall =>
    intro c hc
    rw [mem_singleton.mp hc]
    exact (digitChar_spec hsmall).1
  | case2 value hlarge ih =>
    intro c hc
    rcases mem_append.mp hc with hfront | hlast
    · exact ih c hfront
    · rw [mem_singleton.mp hlast]
      exact (digitChar_spec (Nat.mod_lt value (by decide))).1

theorem decimal_ne_nil : decimal value ≠ [] := by
  fun_induction decimal value with
  | case1 value => exact cons_ne_nil _ _
  | case2 value => exact concat_ne_nil _ _

theorem parseDigits_append (front back : Str) :
    parseDigits value (front ++ back) =
      (parseDigits value front).bind (parseDigits · back) := by
  induction front generalizing value with
  | nil => rfl
  | cons c cs ih =>
    by_cases hc : isAsciiDigit c = true
    · simp only [cons_append, parseDigits, hc, ↓reduceIte, ih]
    · simp [cons_append, parseDigits, hc]

theorem parseDigits_decimal :
    parseDigits 0 (decimal value) = some value := by
  fun_induction decimal value with
  | case1 value hsmall =>
    obtain ⟨hdigit, hvalue⟩ := digitChar_spec hsmall
    simp only [parseDigits, hdigit, ↓reduceIte, hvalue, Nat.zero_mul,
      Nat.zero_add]
  | case2 value hlarge ih =>
    obtain ⟨hdigit, hvalue⟩ :=
      digitChar_spec (Nat.mod_lt value (show 10 > 0 by decide))
    rw [parseDigits_append, ih]
    simp only [Option.bind_some, parseDigits, hdigit, ↓reduceIte, hvalue,
      Option.some.injEq]
    omega

theorem parseI32_decimalI32 {value : Int} (hlow : i32Min ≤ value)
    (hhigh : value ≤ i32Max) : parseI32 (decimalI32 value) = some value := by
  by_cases hneg : value < 0
  · have habs : -(value.natAbs : Int) = value := by omega
    simp only [decimalI32, hneg, ↓reduceIte, parseI32, decimal_ne_nil,
      parseDigits_decimal, habs, hlow, hhigh, and_self]
  · have habs : (value.natAbs : Int) = value := by omega
    obtain ⟨c, cs, hcons⟩ := exists_cons_of_ne_nil
      (decimal_ne_nil value.natAbs)
    have hdigit : isAsciiDigit c = true :=
      isAsciiDigit_of_mem_decimal value.natAbs c (hcons ▸ mem_cons_self)
    have hparse := parseDigits_decimal value.natAbs
    have hminus : c ≠ '-' := by
      rintro rfl
      exact absurd hdigit (by decide)
    have hplus : c ≠ '+' := by
      rintro rfl
      exact absurd hdigit (by decide)
    rw [hcons] at hparse
    simp [decimalI32, hneg, hcons, parseI32, hminus, hplus, hparse, habs]
    omega

theorem trim_append_of_whitespace {space : Str}
    (h : ∀ c ∈ space, isWhitespace c = true) :
    trim (space ++ text) = trim text := by
  rw [trim, trim, dropWhile_append_of_pos h]

end RustStr
