/-
Numbers as a fixed number of bytes, least or most significant byte first, and
as runs of bits.
-/
import Mathlib.Data.List.Basic
import Mathlib.Data.Nat.Bitwise

namespace ByteWords

/-- How many numbers `n` bytes can tell apart. -/
def size : Nat → Nat
  | 0 => 1
  | n + 1 => 256 * size n

def toLe : Nat → Nat → List UInt8
  | 0, _ => []
  | n + 1, x => UInt8.ofNat x :: toLe n (x / 256)

def ofLe : List UInt8 → Nat
  | [] => 0
  | b :: bytes => b.toNat + 256 * ofLe bytes

def toBe (n x : Nat) : List UInt8 := (toLe n x).reverse

variable (bytes : List UInt8)

def ofBe : Nat := ofLe bytes.reverse

@[simp] theorem length_toLe (n x : Nat) : (toLe n x).length = n := by
  induction n generalizing x with
  | zero => rfl
  | succ n ih => rw [toLe, List.length_cons, ih]

@[simp] theorem length_toBe (n x : Nat) : (toBe n x).length = n := by
  rw [toBe, List.length_reverse, length_toLe]

theorem ofLe_lt_size : ofLe bytes < size bytes.length := by
  induction bytes with
  | nil => decide
  | cons b bytes ih =>
    have hb : b.toNat < 256 := b.toNat_lt
    rw [ofLe, List.length_cons, size]
    omega

theorem ofLe_toLe {n x : Nat} (h : x < size n) : ofLe (toLe n x) = x := by
  induction n generalizing x with
  | zero =>
    rw [size] at h
    rw [toLe, ofLe]
    omega
  | succ n ih =>
    rw [size] at h
    have hlow : (UInt8.ofNat x).toNat = x % 256 := UInt8.toNat_ofNat'
    have hhigh : ofLe (toLe n (x / 256)) = x / 256 := by
      apply ih
      omega
    rw [toLe, ofLe, hlow, hhigh]
    omega

theorem toLe_ofLe :
    toLe bytes.length (ofLe bytes) = bytes := by
  induction bytes with
  | nil => rfl
  | cons b bytes ih =>
    have hb : b.toNat < 256 := b.toNat_lt
    have hlow : UInt8.ofNat (b.toNat + 256 * ofLe bytes) = b := by
      apply UInt8.toNat_inj.mp
      rw [UInt8.toNat_ofNat']
      omega
    have hhigh : (b.toNat + 256 * ofLe bytes) / 256 = ofLe bytes := by omega
    rw [List.length_cons, ofLe, toLe, hlow, hhigh, ih]

end ByteWords

/-! Numbers as runs of bits, and bytes told apart by theirs. -/

namespace BitGroups

open List

/-- The lowest `n` bits of a number, the highest of them first. -/
def bits : Nat → Nat → List Bool
  | 0, _ => []
  | n + 1, x => x.testBit n :: bits n x

@[simp] theorem length_bits (n x : Nat) : (bits n x).length = n := by
  induction n with
  | zero => rfl
  | succ n ih => rw [bits, length_cons, ih]

theorem bits_congr {n x y : Nat} (h : ∀ i < n, x.testBit i = y.testBit i) :
    bits n x = bits n y := by
  induction n with
  | zero => rfl
  | succ n ih =>
    rw [bits, bits, h n n.lt_succ_self,
      ih fun i hi => h i (Nat.lt_succ_of_lt hi)]

theorem bits_add (m n x : Nat) :
    bits (m + n) x = bits m (x >>> n) ++ bits n x := by
  induction m with
  | zero => rw [Nat.zero_add, bits, nil_append]
  | succ m ih =>
    rw [Nat.add_right_comm, bits, bits, ih, Nat.testBit_shiftRight,
      Nat.add_comm n m, cons_append]

theorem testBit_of_bits_eq {n x y : Nat} (h : bits n x = bits n y) :
    ∀ i < n, x.testBit i = y.testBit i := by
  induction n with
  | zero => exact fun i hi => absurd hi i.not_lt_zero
  | succ n ih =>
    rw [bits, bits, cons.injEq] at h
    intro i hi
    rcases Nat.lt_succ_iff_lt_or_eq.mp hi with hlow | rfl
    · exact ih h.2 i hlow
    · exact h.1

theorem bits_zero (n : Nat) : bits n 0 = replicate n false := by
  induction n with
  | zero => rfl
  | succ n ih => rw [bits, ih, Nat.zero_testBit, replicate_succ]

theorem bits_append (m n : Nat) {x y z : Nat}
    (hlow : ∀ i < n, z.testBit i = y.testBit i)
    (hhigh : ∀ i < m, z.testBit (n + i) = x.testBit i) :
    bits (m + n) z = bits m x ++ bits n y := by
  rw [bits_add, bits_congr hlow]
  congr 1
  apply bits_congr
  intro i hi
  rw [Nat.testBit_shiftRight, hhigh i hi]

theorem byte_eq_of_bits {a b : UInt8} (h : bits 8 a.toNat = bits 8 b.toNat) :
    a = b := by
  apply UInt8.toNat_inj.mp
  apply Nat.eq_of_testBit_eq
  intro i
  by_cases hi : i < 8
  · exact testBit_of_bits_eq h i hi
  · have hsmall (c : UInt8) : c.toNat.testBit i = false := by
      apply Nat.testBit_lt_two_pow
      exact c.toNat_lt.trans_le
        (Nat.pow_le_pow_right (by decide) (Nat.not_lt.mp hi))
    rw [hsmall, hsmall]

def ofBytes (bytes : List UInt8) : List Bool :=
  bytes.flatMap fun b => bits 8 b.toNat

/-- Bytes are found again in their bits, whatever less than a byte is left on
either side. -/
theorem bytes_eq_of_bits {first second : List UInt8} {left right : List Bool}
    (h : ofBytes first ++ left = ofBytes second ++ right)
    (hleft : left.length < 8) (hright : right.length < 8) : first = second := by
  induction first generalizing second with
  | nil =>
    cases second with
    | nil => rfl
    | cons b second =>
      have hlength := congrArg List.length h
      simp only [ofBytes, flatMap_nil, flatMap_cons,
        length_append, length_bits, length_nil] at hlength
      omega
  | cons a first ih =>
    cases second with
    | nil =>
      have hlength := congrArg List.length h
      simp only [ofBytes, flatMap_nil, flatMap_cons,
        length_append, length_bits, length_nil] at hlength
      omega
    | cons b second =>
      simp only [ofBytes, flatMap_cons, append_assoc] at h
      have hsize : (bits 8 a.toNat).length = (bits 8 b.toNat).length := by
        rw [length_bits, length_bits]
      obtain ⟨hbyte, hrest⟩ := append_inj h hsize
      rw [byte_eq_of_bits hbyte, ih hrest]

end BitGroups
