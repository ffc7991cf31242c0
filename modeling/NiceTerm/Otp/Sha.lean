/-
The three hash functions behind one-time passwords, and those of the
standard.  They differ in the padding of some lengths only.
-/
import NiceTerm.Otp.Uri

namespace NiceTerm.Otp

open ByteWords List

/-- `Vec::resize`; it cuts off what is too long. -/
def resize (bytes : Bytes) (size : Nat) : Bytes :=
  bytes.take size ++ replicate (size - bytes.length) 0

/-- The padding of all three; a block is a power of two, so that `& !63_usize`
rounds down to whole blocks. -/
def padInput (blockSize lengthBytes : Nat) (input : Bytes) : Bytes :=
  let padded := input ++ [0x80]
  let size := (padded.length + blockSize) / blockSize * blockSize - lengthBytes
  resize padded size ++ toBe lengthBytes (input.length * 8)

def chunks (size : Nat) (bytes : Bytes) : List Bytes :=
  (List.range ((bytes.length + size - 1) / size)).map fun i =>
    (bytes.drop (i * size)).take size

/-- `from_be_bytes` of the bytes of a word. -/
def wordAt {w : Nat} (chunk : Bytes) (i : Nat) : BitVec w :=
  BitVec.ofNat w (ofBe ((chunk.drop (i * (w / 8))).take (w / 8)))

/-- `to_be_bytes` of a word. -/
def wordBytes {w : Nat} (word : BitVec w) : Bytes := toBe (w / 8) word.toNat

/-- The first sixteen words of a schedule. -/
def preparedWords {w : Nat} (chunk : Bytes) : List (BitVec w) :=
  (List.range 16).map (wordAt chunk)

/-- The loop that extends a schedule by one word after the other. -/
def extendWords {w : Nat} (next : List (BitVec w) → Nat → BitVec w) :
    Nat → List (BitVec w) → List (BitVec w)
  | 0, words => words
  | count + 1, words =>
    extendWords next count (words ++ [next words words.length])

/-! SHA-256 and SHA-512. -/

/-- What differs between the two. -/
structure Sha2 (w : Nat) where
  rounds : Nat
  k : List (BitVec w)
  bigSigma0 : Nat × Nat × Nat
  bigSigma1 : Nat × Nat × Nat
  smallSigma0 : Nat × Nat × Nat
  smallSigma1 : Nat × Nat × Nat

@[ext] structure Sha2State (w : Nat) where
  a : BitVec w
  b : BitVec w
  c : BitVec w
  d : BitVec w
  e : BitVec w
  f : BitVec w
  g : BitVec w
  h : BitVec w
deriving DecidableEq

def rotate3 {w : Nat} (by3 : Nat × Nat × Nat) (x : BitVec w) : BitVec w :=
  x.rotateRight by3.1 ^^^ x.rotateRight by3.2.1 ^^^ x.rotateRight by3.2.2

def rotate2Shift {w : Nat} (by3 : Nat × Nat × Nat) (x : BitVec w) : BitVec w :=
  x.rotateRight by3.1 ^^^ x.rotateRight by3.2.1 ^^^ (x >>> by3.2.2)

namespace Sha2

variable {w : Nat} (sha : Sha2 w)

def nextWord (words : List (BitVec w)) (i : Nat) : BitVec w :=
  let s0 := rotate2Shift sha.smallSigma0 (words.getD (i - 15) 0)
  let s1 := rotate2Shift sha.smallSigma1 (words.getD (i - 2) 0)
  words.getD (i - 16) 0 + s0 + words.getD (i - 7) 0 + s1

def round (words : List (BitVec w)) (s : Sha2State w) (i : Nat) : Sha2State w :=
  let s1 := rotate3 sha.bigSigma1 s.e
  let ch := (s.e &&& s.f) ^^^ (~~~s.e &&& s.g)
  let temp1 := s.h + s1 + ch + sha.k.getD i 0 + words.getD i 0
  let s0 := rotate3 sha.bigSigma0 s.a
  let maj := (s.a &&& s.b) ^^^ (s.a &&& s.c) ^^^ (s.b &&& s.c)
  let temp2 := s0 + maj
  ⟨temp1 + temp2, s.a, s.b, s.c, s.d + temp1, s.e, s.f, s.g⟩

def add (s t : Sha2State w) : Sha2State w :=
  ⟨s.a + t.a, s.b + t.b, s.c + t.c, s.d + t.d, s.e + t.e, s.f + t.f, s.g + t.g,
    s.h + t.h⟩

def chunkStep (state : Sha2State w) (chunk : Bytes) : Sha2State w :=
  let words :=
    extendWords sha.nextWord (sha.rounds - 16) (preparedWords chunk)
  add state ((List.range sha.rounds).foldl (sha.round words) state)

def digest (s : Sha2State w) : Bytes :=
  [s.a, s.b, s.c, s.d, s.e, s.f, s.g, s.h].flatMap wordBytes

end Sha2

def sha256K : List (BitVec 32) := [
  0x428a2f98, 0x71374491, 0xb5c0fbcf, 0xe9b5dba5, 0x3956c25b, 0x59f111f1,
  0x923f82a4, 0xab1c5ed5, 0xd807aa98, 0x12835b01, 0x243185be, 0x550c7dc3,
  0x72be5d74, 0x80deb1fe, 0x9bdc06a7, 0xc19bf174, 0xe49b69c1, 0xefbe4786,
  0x0fc19dc6, 0x240ca1cc, 0x2de92c6f, 0x4a7484aa, 0x5cb0a9dc, 0x76f988da,
  0x983e5152, 0xa831c66d, 0xb00327c8, 0xbf597fc7, 0xc6e00bf3, 0xd5a79147,
  0x06ca6351, 0x14292967, 0x27b70a85, 0x2e1b2138, 0x4d2c6dfc, 0x53380d13,
  0x650a7354, 0x766a0abb, 0x81c2c92e, 0x92722c85, 0xa2bfe8a1, 0xa81a664b,
  0xc24b8b70, 0xc76c51a3, 0xd192e819, 0xd6990624, 0xf40e3585, 0x106aa070,
  0x19a4c116, 0x1e376c08, 0x2748774c, 0x34b0bcb5, 0x391c0cb3, 0x4ed8aa4a,
  0x5b9cca4f, 0x682e6ff3, 0x748f82ee, 0x78a5636f, 0x84c87814, 0x8cc70208,
  0x90befffa, 0xa4506ceb, 0xbef9a3f7, 0xc67178f2]

def sha256Params : Sha2 32 :=
  ⟨64, sha256K, (2, 13, 22), (6, 11, 25), (7, 18, 3), (17, 19, 10)⟩

def sha256State : Sha2State 32 :=
  ⟨0x6a09e667, 0xbb67ae85, 0x3c6ef372, 0xa54ff53a, 0x510e527f, 0x9b05688c,
    0x1f83d9ab, 0x5be0cd19⟩

def sha512K : List (BitVec 64) := [
  0x428a2f98d728ae22, 0x7137449123ef65cd, 0xb5c0fbcfec4d3b2f,
  0xe9b5dba58189dbbc, 0x3956c25bf348b538, 0x59f111f1b605d019,
  0x923f82a4af194f9b, 0xab1c5ed5da6d8118, 0xd807aa98a3030242,
  0x12835b0145706fbe, 0x243185be4ee4b28c, 0x550c7dc3d5ffb4e2,
  0x72be5d74f27b896f, 0x80deb1fe3b1696b1, 0x9bdc06a725c71235,
  0xc19bf174cf692694, 0xe49b69c19ef14ad2, 0xefbe4786384f25e3,
  0x0fc19dc68b8cd5b5, 0x240ca1cc77ac9c65, 0x2de92c6f592b0275,
  0x4a7484aa6ea6e483, 0x5cb0a9dcbd41fbd4, 0x76f988da831153b5,
  0x983e5152ee66dfab, 0xa831c66d2db43210, 0xb00327c898fb213f,
  0xbf597fc7beef0ee4, 0xc6e00bf33da88fc2, 0xd5a79147930aa725,
  0x06ca6351e003826f, 0x142929670a0e6e70, 0x27b70a8546d22ffc,
  0x2e1b21385c26c926, 0x4d2c6dfc5ac42aed, 0x53380d139d95b3df,
  0x650a73548baf63de, 0x766a0abb3c77b2a8, 0x81c2c92e47edaee6,
  0x92722c851482353b, 0xa2bfe8a14cf10364, 0xa81a664bbc423001,
  0xc24b8b70d0f89791, 0xc76c51a30654be30, 0xd192e819d6ef5218,
  0xd69906245565a910, 0xf40e35855771202a, 0x106aa07032bbd1b8,
  0x19a4c116b8d2d0c8, 0x1e376c085141ab53, 0x2748774cdf8eeb99,
  0x34b0bcb5e19b48a8, 0x391c0cb3c5c95a63, 0x4ed8aa4ae3418acb,
  0x5b9cca4f7763e373, 0x682e6ff3d6b2b8a3, 0x748f82ee5defb2fc,
  0x78a5636f43172f60, 0x84c87814a1f0ab72, 0x8cc702081a6439ec,
  0x90befffa23631e28, 0xa4506cebde82bde9, 0xbef9a3f7b2c67915,
  0xc67178f2e372532b, 0xca273eceea26619c, 0xd186b8c721c0c207,
  0xeada7dd6cde0eb1e, 0xf57d4f7fee6ed178, 0x06f067aa72176fba,
  0x0a637dc5a2c898a6, 0x113f9804bef90dae, 0x1b710b35131c471b,
  0x28db77f523047d84, 0x32caab7b40c72493, 0x3c9ebe0a15c9bebc,
  0x431d67c49c100d4c, 0x4cc5d4becb3e42b6, 0x597f299cfc657e2a,
  0x5fcb6fab3ad6faec, 0x6c44198c4a475817]

def sha512Params : Sha2 64 :=
  ⟨80, sha512K, (28, 34, 39), (14, 18, 41), (1, 8, 7), (19, 61, 6)⟩

def sha512State : Sha2State 64 :=
  ⟨0x6a09e667f3bcc908, 0xbb67ae8584caa73b, 0x3c6ef372fe94f82b,
    0xa54ff53a5f1d36f1, 0x510e527fade682d1, 0x9b05688c2b3e6c1f,
    0x1f83d9abfb41bd6b, 0x5be0cd19137e2179⟩

/-- `None` where the length in bits overflows an `u64`. -/
def sha256 (input : Bytes) : Option Bytes :=
  if input.length * 8 < 18446744073709551616 then
    some (Sha2.digest ((chunks 64 (padInput 64 8 input)).foldl
      sha256Params.chunkStep sha256State))
  else none

/-- The length in bits is an `u128`. -/
def sha512 (input : Bytes) : Bytes :=
  Sha2.digest ((chunks 128 (padInput 128 16 input)).foldl
    sha512Params.chunkStep sha512State)

/-! SHA-1. -/

@[ext] structure Sha1State where
  a : BitVec 32
  b : BitVec 32
  c : BitVec 32
  d : BitVec 32
  e : BitVec 32
deriving DecidableEq

namespace Sha1

def initial : Sha1State :=
  ⟨0x67452301, 0xEFCDAB89, 0x98BADCFE, 0x10325476, 0xC3D2E1F0⟩

def nextWord (words : List (BitVec 32)) (i : Nat) : BitVec 32 :=
  (words.getD (i - 3) 0 ^^^ words.getD (i - 8) 0 ^^^ words.getD (i - 14) 0 ^^^
    words.getD (i - 16) 0).rotateLeft 1

def mix (s : Sha1State) (i : Nat) : BitVec 32 × BitVec 32 :=
  if i < 20 then ((s.b &&& s.c) ||| (~~~s.b &&& s.d), 0x5A827999)
  else if i < 40 then (s.b ^^^ s.c ^^^ s.d, 0x6ED9EBA1)
  else if i < 60 then
    ((s.b &&& s.c) ||| (s.b &&& s.d) ||| (s.c &&& s.d), 0x8F1BBCDC)
  else (s.b ^^^ s.c ^^^ s.d, 0xCA62C1D6)

def round (words : List (BitVec 32)) (s : Sha1State) (i : Nat) : Sha1State :=
  let temp := s.a.rotateLeft 5 + (mix s i).1 + s.e + (mix s i).2 +
    words.getD i 0
  ⟨temp, s.a, s.b.rotateLeft 30, s.c, s.d⟩

def add (s t : Sha1State) : Sha1State :=
  ⟨s.a + t.a, s.b + t.b, s.c + t.c, s.d + t.d, s.e + t.e⟩

def chunkStep (state : Sha1State) (chunk : Bytes) : Sha1State :=
  let words := extendWords nextWord 64 (preparedWords chunk)
  add state ((List.range 80).foldl (round words) state)

def digest (s : Sha1State) : Bytes :=
  [s.a, s.b, s.c, s.d, s.e].flatMap wordBytes

end Sha1

def sha1 (input : Bytes) : Option Bytes :=
  if input.length * 8 < 18446744073709551616 then
    some (Sha1.digest ((chunks 64 (padInput 64 8 input)).foldl Sha1.chunkStep
      Sha1.initial))
  else none

def Algorithm.hashBytes : Algorithm → Bytes → Option Bytes
  | .sha1, data => Otp.sha1 data
  | .sha256, data => Otp.sha256 data
  | .sha512, data => some (Otp.sha512 data)

/-! The standard. -/

namespace Fips

/-- As few zero bytes as fill the last block, behind the mark and in front of
the length. -/
def zeroBytes (blockSize lengthBytes length : Nat) : Nat :=
  (blockSize - (length + 1 + lengthBytes) % blockSize) % blockSize

def pad (blockSize lengthBytes : Nat) (message : Bytes) : Bytes :=
  message ++ [0x80] ++
    replicate (zeroBytes blockSize lengthBytes message.length) 0 ++
    toBe lengthBytes (8 * message.length)

/-- Word `t` of block `i`. -/
def word {w : Nat} (padded : Bytes) (blockSize i t : Nat) : BitVec w :=
  BitVec.ofNat w
    (ofBe ((padded.drop (i * blockSize + t * (w / 8))).take (w / 8)))

def ch {w : Nat} (x y z : BitVec w) : BitVec w := (x &&& y) ^^^ (~~~x &&& z)

def parity {w : Nat} (x y z : BitVec w) : BitVec w := x ^^^ y ^^^ z

def maj {w : Nat} (x y z : BitVec w) : BitVec w :=
  (x &&& y) ^^^ (x &&& z) ^^^ (y &&& z)

/-- The greatest number whose power is at most the target, bit after bit. -/
def rootFrom (exponent target : Nat) : Nat → Nat → Nat
  | 0, found => found
  | bit + 1, found =>
    if Nat.pow (found + 1 <<< bit) exponent ≤ target then
      rootFrom exponent target bit (found + 1 <<< bit)
    else rootFrom exponent target bit found

/-- The first `w` bits of the fractional part of a root. -/
def rootBits (exponent w p : Nat) : BitVec w :=
  BitVec.ofNat w (rootFrom exponent (p <<< (exponent * w)) (w + 8) 0)

/-- The first eighty primes. -/
def primes : List Nat :=
  (List.range 410).filter fun p =>
    2 ≤ p && (List.range 21).all fun d => d < 2 || p ≤ d || p % d != 0

def sha256Params : Sha2 32 :=
  ⟨64, (primes.take 64).map (rootBits 3 32), (2, 13, 22), (6, 11, 25),
    (7, 18, 3), (17, 19, 10)⟩

def sha512Params : Sha2 64 :=
  ⟨80, primes.map (rootBits 3 64), (28, 34, 39), (14, 18, 41), (1, 8, 7),
    (19, 61, 6)⟩

/-- From the square roots of the first eight primes. -/
def initial (w : Nat) : Sha2State w :=
  ⟨rootBits 2 w 2, rootBits 2 w 3, rootBits 2 w 5, rootBits 2 w 7,
    rootBits 2 w 11, rootBits 2 w 13, rootBits 2 w 17, rootBits 2 w 19⟩

variable {w : Nat} (sha : Sha2 w)

/-- The message schedule of SHA-256 and SHA-512. -/
def schedule (m : Nat → BitVec w) (t : Nat) : BitVec w :=
  if t < 16 then m t
  else
    rotate2Shift sha.smallSigma1 (schedule m (t - 2)) + schedule m (t - 7) +
      rotate2Shift sha.smallSigma0 (schedule m (t - 15)) + schedule m (t - 16)
termination_by t

/-- The working variables after `t` rounds. -/
def working (m : Nat → BitVec w) (start : Sha2State w) : Nat → Sha2State w
  | 0 => start
  | t + 1 =>
    let s := working m start t
    let t1 := s.h + rotate3 sha.bigSigma1 s.e + ch s.e s.f s.g +
      sha.k.getD t 0 + schedule sha m t
    let t2 := rotate3 sha.bigSigma0 s.a + maj s.a s.b s.c
    ⟨t1 + t2, s.a, s.b, s.c, s.d + t1, s.e, s.f, s.g⟩

/-- The hash value after `i` blocks of a padded message. -/
def value (padded : Bytes) (blockSize : Nat) (start : Sha2State w) :
    Nat → Sha2State w
  | 0 => start
  | i + 1 =>
    let before := value padded blockSize start i
    Sha2.add before (working sha (word padded blockSize i) before sha.rounds)

def hash (blockSize lengthBytes : Nat) (message : Bytes) : Bytes :=
  let padded := pad blockSize lengthBytes message
  Sha2.digest
    (value sha padded blockSize (initial w) (padded.length / blockSize))

def sha256 (message : Bytes) : Bytes := hash sha256Params 64 8 message

def sha512 (message : Bytes) : Bytes := hash sha512Params 128 16 message

/-- The message schedule of SHA-1. -/
def schedule1 (m : Nat → BitVec 32) (t : Nat) : BitVec 32 :=
  if t < 16 then m t
  else
    (schedule1 m (t - 3) ^^^ schedule1 m (t - 8) ^^^ schedule1 m (t - 14) ^^^
      schedule1 m (t - 16)).rotateLeft 1
termination_by t

def f (t : Nat) (x y z : BitVec 32) : BitVec 32 :=
  if t < 20 then ch x y z
  else if t < 40 then parity x y z
  else if t < 60 then maj x y z
  else parity x y z

def k (t : Nat) : BitVec 32 :=
  if t < 20 then 0x5a827999
  else if t < 40 then 0x6ed9eba1
  else if t < 60 then 0x8f1bbcdc
  else 0xca62c1d6

def initial1 : Sha1State :=
  ⟨0x67452301, 0xefcdab89, 0x98badcfe, 0x10325476, 0xc3d2e1f0⟩

def working1 (m : Nat → BitVec 32) (start : Sha1State) : Nat → Sha1State
  | 0 => start
  | t + 1 =>
    let s := working1 m start t
    ⟨s.a.rotateLeft 5 + f t s.b s.c s.d + s.e + k t + schedule1 m t, s.a,
      s.b.rotateLeft 30, s.c, s.d⟩

def value1 (padded : Bytes) : Nat → Sha1State
  | 0 => initial1
  | i + 1 =>
    let before := value1 padded i
    Sha1.add before (working1 (word padded 64 i) before 80)

def sha1 (message : Bytes) : Bytes :=
  let padded := pad 64 8 message
  Sha1.digest (value1 padded (padded.length / 64))

/-- The function of the standard for an algorithm. -/
def digestOf : Algorithm → Bytes → Bytes
  | .sha1 => sha1
  | .sha256 => sha256
  | .sha512 => sha512

theorem schedule_of_lt (m : Nat → BitVec w) {t : Nat} (ht : t < 16) :
    schedule sha m t = m t := by
  rw [schedule, if_pos ht]

theorem schedule_of_le (m : Nat → BitVec w) {t : Nat} (ht : 16 ≤ t) :
    schedule sha m t = rotate2Shift sha.smallSigma1 (schedule sha m (t - 2)) +
        schedule sha m (t - 7) + rotate2Shift sha.smallSigma0
        (schedule sha m (t - 15)) + schedule sha m (t - 16) := by
  rw [schedule, if_neg (Nat.not_lt_of_le ht)]

theorem schedule1_of_lt (m : Nat → BitVec 32) {t : Nat} (ht : t < 16) :
    schedule1 m t = m t := by
  rw [schedule1, if_pos ht]

theorem schedule1_of_le (m : Nat → BitVec 32) {t : Nat} (ht : 16 ≤ t) :
    schedule1 m t =
      (schedule1 m (t - 3) ^^^ schedule1 m (t - 8) ^^^ schedule1 m (t - 14) ^^^
        schedule1 m (t - 16)).rotateLeft 1 := by
  rw [schedule1, if_neg (Nat.not_lt_of_le ht)]

end Fips

theorem sha256K_eq : sha256K = Fips.sha256Params.k := by decide +kernel

theorem sha512K_eq : sha512K = Fips.sha512Params.k := by decide +kernel

theorem sha256State_eq : sha256State = Fips.initial 32 := by decide +kernel

theorem sha512State_eq : sha512State = Fips.initial 64 := by decide +kernel

/-! The words of a schedule and the rounds. -/

/-- Words that agree with a schedule so far do so when they are extended. -/
theorem extendWords_getD {w : Nat} {next : List (BitVec w) → Nat → BitVec w}
    {schedule : Nat → BitVec w}
    (hnext : ∀ words : List (BitVec w), 16 ≤ words.length →
      (∀ t < words.length, words.getD t 0 = schedule t) →
      next words words.length = schedule words.length)
    (count : Nat) {words : List (BitVec w)} (hlong : 16 ≤ words.length)
    (hwords : ∀ t < words.length, words.getD t 0 = schedule t) :
    ∀ t < words.length + count,
      (extendWords next count words).getD t 0 = schedule t := by
  induction count generalizing words with
  | zero => exact hwords
  | succ count ih =>
    have hone : (words ++ [next words words.length]).length =
        words.length + 1 := by
      rw [length_append, length_singleton]
    intro t ht
    apply ih
    · omega
    · intro u hu
      rw [hone] at hu
      by_cases hold : u < words.length
      · rw [getD_append _ _ _ _ hold, hwords u hold]
      · have hlast : u = words.length := by omega
        subst hlast
        rw [getD_append_right _ _ _ _ (Nat.le_refl _), Nat.sub_self,
          getD_cons_zero, hnext words hlong hwords]
    · rw [hone]
      omega

theorem getD_preparedWords {w : Nat} (chunk : Bytes) {t : Nat} (ht : t < 16) :
    (preparedWords chunk : List (BitVec w)).getD t 0 = wordAt chunk t := by
  rw [preparedWords, getD_eq_getElem?_getD, getElem?_map, getElem?_range ht]
  rfl

theorem length_preparedWords {w : Nat} (chunk : Bytes) :
    (preparedWords chunk : List (BitVec w)).length = 16 := by
  rw [preparedWords, length_map, length_range]

/-- The first words of a block are those of the schedule, and so are all. -/
theorem preparedWords_getD {w : Nat} {next : List (BitVec w) → Nat → BitVec w}
    {schedule : Nat → BitVec w} {chunk : Bytes}
    (hnext : ∀ words : List (BitVec w), 16 ≤ words.length →
      (∀ t < words.length, words.getD t 0 = schedule t) →
      next words words.length = schedule words.length)
    (hfirst : ∀ t < 16, wordAt chunk t = schedule t) {t count : Nat}
    (ht : t < 16 + count) :
    (extendWords next count (preparedWords chunk)).getD t 0 = schedule t := by
  rw [← length_preparedWords chunk] at ht
  refine extendWords_getD hnext count (length_preparedWords chunk).ge ?_ t ht
  intro u hu
  rw [length_preparedWords] at hu
  rw [getD_preparedWords chunk hu, hfirst u hu]

/-! A round, a block and a message of SHA-256 and SHA-512. -/

section Sha2

variable {w : Nat} (sha : Sha2 w)

theorem nextWord_eq (m : Nat → BitVec w) {words : List (BitVec w)}
    (hlong : 16 ≤ words.length)
    (hwords : ∀ t < words.length, words.getD t 0 = Fips.schedule sha m t) :
    sha.nextWord words words.length = Fips.schedule sha m words.length := by
  rw [Fips.schedule_of_le sha m hlong, Sha2.nextWord]
  rw [hwords _ (by omega), hwords _ (by omega), hwords _ (by omega),
    hwords _ (by omega)]
  ac_rfl

theorem foldl_round (m : Nat → BitVec w) {words : List (BitVec w)}
    (start : Sha2State w) (count : Nat)
    (hwords : ∀ t < count, words.getD t 0 = Fips.schedule sha m t) :
    (List.range count).foldl (sha.round words) start =
      Fips.working sha m start count := by
  induction count with
  | zero => rfl
  | succ count ih =>
    rw [range_succ, foldl_append,
      ih fun t ht => hwords t (Nat.lt_succ_of_lt ht), foldl_cons,
      foldl_nil, Sha2.round, hwords count (Nat.lt_succ_self count)]
    rfl

theorem chunkStep_eq {m : Nat → BitVec w} (state : Sha2State w) {chunk : Bytes}
    (hm : ∀ t < 16, wordAt chunk t = m t) (hrounds : 16 ≤ sha.rounds) :
    sha.chunkStep state chunk =
      Sha2.add state (Fips.working sha m state sha.rounds) := by
  rw [Sha2.chunkStep, foldl_round sha m state sha.rounds]
  intro t ht
  apply preparedWords_getD (fun words => nextWord_eq sha m)
  · intro u hu
    rw [Fips.schedule_of_lt sha m hu, hm u hu]
  · omega

end Sha2

/-! The blocks of a padded message. -/

theorem chunk_word {w : Nat} {size : Nat} (padded : Bytes) (i : Nat) {t : Nat}
    (ht : t < 16) (hsize : 16 * (w / 8) = size) :
    (wordAt ((padded.drop (i * size)).take size) t : BitVec w) =
      Fips.word padded size i t := by
  have hfits : w / 8 ≤ size - t * (w / 8) := by
    have hmul : (t + 1) * (w / 8) ≤ 16 * (w / 8) :=
      Nat.mul_le_mul_right _ ht
    rw [Nat.succ_mul] at hmul
    omega
  rw [wordAt, Fips.word, drop_take, drop_drop, take_take,
    Nat.min_eq_left hfits]

/-- A fold over the blocks of a message, block after block. -/
theorem foldl_chunks {σ : Type} {size : Nat} (step : σ → Bytes → σ)
    (value : Nat → σ) (bytes : Bytes) (hpos : 0 < size)
    (hwhole : size ∣ bytes.length)
    (hstep : ∀ i, value (i + 1) =
      step (value i) ((bytes.drop (i * size)).take size)) :
    (chunks size bytes).foldl step (value 0) =
      value (bytes.length / size) := by
  have hcount : (bytes.length + size - 1) / size = bytes.length / size := by
    obtain ⟨n, hn⟩ := hwhole
    rw [hn, Nat.mul_div_cancel_left n hpos, Nat.add_sub_assoc hpos,
      Nat.mul_add_div hpos, Nat.div_eq_of_lt (by omega), Nat.add_zero]
  rw [chunks, hcount, foldl_map]
  induction bytes.length / size with
  | zero => rfl
  | succ n ih =>
    rw [range_succ, foldl_append, ih, foldl_cons, foldl_nil, hstep]

section Sha2

variable {w : Nat} (sha : Sha2 w)

theorem foldl_chunkStep {size : Nat} (padded : Bytes) (start : Sha2State w)
    (hrounds : 16 ≤ sha.rounds) (hsize : 16 * (w / 8) = size)
    (hpos : 0 < size) (hwhole : size ∣ padded.length) :
    (chunks size padded).foldl sha.chunkStep start =
      Fips.value sha padded size start (padded.length / size) := by
  apply foldl_chunks sha.chunkStep (Fips.value sha padded size start) padded
    hpos hwhole
  intro i
  rw [chunkStep_eq sha _ (fun t ht => chunk_word padded i ht hsize) hrounds,
    Fips.value]

end Sha2

/-! SHA-1. -/

theorem nextWord1_eq (m : Nat → BitVec 32) {words : List (BitVec 32)}
    (hlong : 16 ≤ words.length)
    (hwords : ∀ t < words.length, words.getD t 0 = Fips.schedule1 m t) :
    Sha1.nextWord words words.length = Fips.schedule1 m words.length := by
  rw [Fips.schedule1_of_le m hlong, Sha1.nextWord]
  rw [hwords _ (by omega), hwords _ (by omega), hwords _ (by omega),
    hwords _ (by omega)]

/-- Where one of two words has a bit, the other has none. -/
theorem or_eq_ch (x y z : BitVec 32) :
    (x &&& y) ||| (~~~x &&& z) = Fips.ch x y z := by
  rw [Fips.ch]
  ext i hi
  simp only [BitVec.getElem_or, BitVec.getElem_and, BitVec.getElem_not,
    BitVec.getElem_xor]
  cases x[i] <;> cases y[i] <;> cases z[i] <;> rfl

/-- Two of three bits, however they are joined. -/
theorem or_eq_maj (x y z : BitVec 32) :
    (x &&& y) ||| (x &&& z) ||| (y &&& z) = Fips.maj x y z := by
  rw [Fips.maj]
  ext i hi
  simp only [BitVec.getElem_or, BitVec.getElem_and, BitVec.getElem_xor]
  cases x[i] <;> cases y[i] <;> cases z[i] <;> rfl

theorem mix_eq (s : Sha1State) (i : Nat) :
    Sha1.mix s i = (Fips.f i s.b s.c s.d, Fips.k i) := by
  rw [Sha1.mix, Fips.f, Fips.k, or_eq_ch, or_eq_maj]
  split
  · rfl
  · split
    · rfl
    · split <;> rfl

theorem foldl_round1 (m : Nat → BitVec 32) {words : List (BitVec 32)}
    (start : Sha1State) (count : Nat)
    (hwords : ∀ t < count, words.getD t 0 = Fips.schedule1 m t) :
    (List.range count).foldl (Sha1.round words) start =
      Fips.working1 m start count := by
  induction count with
  | zero => rfl
  | succ count ih =>
    rw [range_succ, foldl_append, ih fun t ht => hwords t
      (Nat.lt_succ_of_lt ht), foldl_cons, foldl_nil, Sha1.round, hwords count
      (Nat.lt_succ_self count), mix_eq]
    rfl

theorem foldl_chunkStep1 (padded : Bytes) (hwhole : 64 ∣ padded.length) :
    (chunks 64 padded).foldl Sha1.chunkStep Sha1.initial =
      Fips.value1 padded (padded.length / 64) := by
  apply foldl_chunks Sha1.chunkStep (Fips.value1 padded) padded (by decide)
    hwhole
  intro i
  rw [Sha1.chunkStep, Fips.value1, foldl_round1 (Fips.word padded 64 i) _ 80]
  intro t ht
  apply preparedWords_getD (fun words => nextWord1_eq (Fips.word padded 64 i))
  · intro u hu
    rw [Fips.schedule1_of_lt _ hu, chunk_word padded i hu rfl]
  · exact ht

/-! The padding. -/

/-- The lengths at which the mark behind a message, and with it the last bytes,
are cut off. -/
def cutOff (blockSize lengthBytes length : Nat) : Bool :=
  blockSize - lengthBytes ≤ length % blockSize &&
    length % blockSize + 1 < blockSize

/-- The sizes of blocks and lengths that the three functions have. -/
def blockSizes (blockSize lengthBytes : Nat) : Prop :=
  (blockSize = 64 ∧ lengthBytes = 8) ∨ (blockSize = 128 ∧ lengthBytes = 16)

/-- The code fills up to a size, the standard with a number of zeros. -/
theorem paddedSize_eq {blockSize lengthBytes : Nat} (length : Nat)
    (hsizes : blockSizes blockSize lengthBytes)
    (hcut : cutOff blockSize lengthBytes length = false) :
    (length + 1 + blockSize) / blockSize * blockSize - lengthBytes =
      length + 1 + Fips.zeroBytes blockSize lengthBytes length := by
  rw [cutOff, Bool.and_eq_false_iff, decide_eq_false_iff_not,
    decide_eq_false_iff_not] at hcut
  rw [Fips.zeroBytes]
  rcases hsizes with ⟨rfl, rfl⟩ | ⟨rfl, rfl⟩ <;> omega

theorem paddedSize_lt {blockSize lengthBytes : Nat} (length : Nat)
    (hsizes : blockSizes blockSize lengthBytes)
    (hcut : cutOff blockSize lengthBytes length = true) :
    (length + 1 + blockSize) / blockSize * blockSize - lengthBytes <
      length + 1 := by
  rw [cutOff, Bool.and_eq_true, decide_eq_true_iff, decide_eq_true_iff] at hcut
  rcases hsizes with ⟨rfl, rfl⟩ | ⟨rfl, rfl⟩ <;> omega

theorem length_resize (bytes : Bytes) (size : Nat) :
    (resize bytes size).length = size := by
  rw [resize, length_append, length_take, length_replicate]
  omega

theorem resize_of_le {bytes : Bytes} {size : Nat} (h : bytes.length ≤ size) :
    resize bytes size = bytes ++ replicate (size - bytes.length) 0 := by
  rw [resize, take_of_length_le h]

/-- The padding of the code is the standard's, but for the lengths at which
bytes are cut off. -/
theorem padInput_eq_iff {blockSize lengthBytes : Nat} (input : Bytes)
    (hsizes : blockSizes blockSize lengthBytes) :
    padInput blockSize lengthBytes input =
        Fips.pad blockSize lengthBytes input ↔
      cutOff blockSize lengthBytes input.length = false := by
  have hlength : (input ++ [0x80]).length = input.length + 1 := by
    rw [length_append, length_singleton]
  constructor
  · intro hpad
    by_contra hcut
    rw [Bool.not_eq_false] at hcut
    have hlt := paddedSize_lt input.length hsizes hcut
    have hlengths := congrArg List.length hpad
    simp only [padInput, Fips.pad, length_append, length_resize,
      length_toBe, length_replicate, length_singleton] at hlengths
    omega
  · intro hcut
    have hsize := paddedSize_eq input.length hsizes hcut
    simp only [padInput, Fips.pad]
    rw [hlength, hsize, resize_of_le (by rw [hlength]; omega), hlength,
      Nat.add_sub_cancel_left, Nat.mul_comm input.length 8]

theorem pad_whole {blockSize lengthBytes : Nat} (message : Bytes)
    (hsizes : blockSizes blockSize lengthBytes) :
    blockSize ∣ (Fips.pad blockSize lengthBytes message).length := by
  have hlength : (Fips.pad blockSize lengthBytes message).length =
      message.length + 1 + Fips.zeroBytes blockSize lengthBytes message.length +
        lengthBytes := by
    simp only [Fips.pad, length_append, length_toBe, length_replicate,
      length_singleton]
  rw [hlength, Fips.zeroBytes]
  rcases hsizes with ⟨rfl, rfl⟩ | ⟨rfl, rfl⟩ <;> omega

/-! The functions. -/

/-- The bytes of a block of an algorithm, and those of a length. -/
def Algorithm.blockSize : Algorithm → Nat
  | .sha1 => 64
  | .sha256 => 64
  | .sha512 => 128

def Algorithm.lengthBytes : Algorithm → Nat
  | .sha1 => 8
  | .sha256 => 8
  | .sha512 => 16

variable (alg : Algorithm)

theorem blockSizes_algorithm :
    blockSizes alg.blockSize alg.lengthBytes := by
  cases alg with
  | sha1 => exact .inl ⟨rfl, rfl⟩
  | sha256 => exact .inl ⟨rfl, rfl⟩
  | sha512 => exact .inr ⟨rfl, rfl⟩

/-- The lengths at which a message is hashed as the standard says: the length in
bits is one of the standard's, and nothing is cut off. -/
def Algorithm.hashes (length : Nat) : Prop :=
  (alg = .sha512 ∨ length * 8 < 18446744073709551616) ∧
    cutOff alg.blockSize alg.lengthBytes length = false

/-- What the code does with a padded message. -/
def Algorithm.digestPadded : Algorithm → Bytes → Bytes
  | .sha1, padded =>
    Sha1.digest ((chunks 64 padded).foldl Sha1.chunkStep Sha1.initial)
  | .sha256, padded =>
    Sha2.digest ((chunks 64 padded).foldl sha256Params.chunkStep sha256State)
  | .sha512, padded =>
    Sha2.digest ((chunks 128 padded).foldl sha512Params.chunkStep sha512State)

theorem digestPadded_pad (message : Bytes) :
    alg.digestPadded (Fips.pad alg.blockSize alg.lengthBytes message) =
      Fips.digestOf alg message := by
  have hwhole := pad_whole message (blockSizes_algorithm alg)
  cases alg with
  | sha1 =>
    rw [Algorithm.digestPadded, foldl_chunkStep1 _ hwhole]
    rfl
  | sha256 =>
    have hparams : sha256Params = Fips.sha256Params := by
      rw [sha256Params, sha256K_eq]
      rfl
    rw [Algorithm.digestPadded, hparams, sha256State_eq,
      foldl_chunkStep Fips.sha256Params _ _ (by decide) rfl (by decide)
        hwhole]
    rfl
  | sha512 =>
    have hparams : sha512Params = Fips.sha512Params := by
      rw [sha512Params, sha512K_eq]
      rfl
    rw [Algorithm.digestPadded, hparams, sha512State_eq,
      foldl_chunkStep Fips.sha512Params _ _ (by decide) rfl (by decide)
        hwhole]
    rfl

theorem hashBytes_eq_digestPadded (data : Bytes)
    (hlength : alg = .sha512 ∨ data.length * 8 < 18446744073709551616) :
    alg.hashBytes data = some (alg.digestPadded
      (padInput alg.blockSize alg.lengthBytes data)) := by
  cases alg with
  | sha1 =>
    have hfits := hlength.resolve_left (by decide)
    rw [Algorithm.hashBytes, sha1, if_pos hfits]
    rfl
  | sha256 =>
    have hfits := hlength.resolve_left (by decide)
    rw [Algorithm.hashBytes, sha256, if_pos hfits]
    rfl
  | sha512 => rfl

theorem hashBytes_of_hashes {alg : Algorithm} {data : Bytes}
    (h : alg.hashes data.length) :
    alg.hashBytes data = some (Fips.digestOf alg data) := by
  rw [hashBytes_eq_digestPadded alg data h.1,
    (padInput_eq_iff data (blockSizes_algorithm alg)).mpr h.2, digestPadded_pad]

/-- Behind fifty-six bytes there is no room left for the mark in the block. -/
theorem sha1_fiftySix :
    Otp.sha1 (replicate 56 97) ≠ some (Fips.sha1 (replicate 56 97)) := by
  have hpad := digestPadded_pad .sha1 (replicate 56 97)
  rw [Fips.digestOf] at hpad
  rw [← hpad]
  decide +kernel

end NiceTerm.Otp
