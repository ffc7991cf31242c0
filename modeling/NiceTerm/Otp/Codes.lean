/-
One-time codes: what `generate_at` and `verify` compute, where that is the code
of the standards, and where the arithmetic of a URI's numbers goes wrong.
-/
import NiceTerm.Otp.Sha

namespace NiceTerm.Otp

open Algorithm ByteWords Fips List Option Totp
open RustStr

/-- `copy_from_slice` to the front of a block of zeros; what does not fit
panics. -/
def copyInto (size : Nat) (bytes : Bytes) : Option Bytes :=
  if bytes.length ≤ size then
    some (bytes ++ replicate (size - bytes.length) 0)
  else none

def keyBlock (alg : Algorithm) (key : Bytes) : Option Bytes :=
  if key.length > alg.blockSize then do
    let hashed ← alg.hashBytes key
    copyInto alg.blockSize hashed
  else copyInto alg.blockSize key

def hmac (alg : Algorithm) (key message : Bytes) : Option Bytes := do
  let keyBlock ← keyBlock alg key
  let innerHash ← alg.hashBytes (keyBlock.map (· ^^^ 0x36) ++ message)
  alg.hashBytes (keyBlock.map (· ^^^ 0x5c) ++ innerHash)

/-- `10_u32.pow`, which overflows from ten digits on. -/
def pow10 (digits : UInt8) : Option UInt32 :=
  let power := Nat.pow 10 digits.toNat
  if power < 4294967296 then some (UInt32.ofNat power) else none

/-- Thirty-one bits of four bytes. -/
def truncated (b0 b1 b2 b3 : UInt8) : UInt32 :=
  ((b0.toUInt32 &&& 0x7f) <<< 24) ||| (b1.toUInt32 <<< 16) |||
    (b2.toUInt32 <<< 8) ||| b3.toUInt32

/-- Nothing where the code would panic: an index out of bounds, a power that
overflows, a number too large to be hashed. -/
def Hotp.generateAt (hotp : Hotp) (counter : UInt64) : Option UInt32 := do
  let hmacResult ← hmac hotp.alg hotp.secret (toBe 8 counter.toNat)
  let last ← hmacResult.getLast?
  let offset := (last &&& 0x0f).toNat
  let b0 ← hmacResult[offset]?
  let b1 ← hmacResult[offset + 1]?
  let b2 ← hmacResult[offset + 2]?
  let b3 ← hmacResult[offset + 3]?
  let modulus ← pow10 hotp.digits
  some (truncated b0 b1 b2 b3 % modulus)

def Hotp.matchesBefore (hotp : Hotp) (otp : UInt32) (counter : UInt64)
    (i : Nat) : Option Bool :=
  if i ≤ counter.toNat then
    (hotp.generateAt (UInt64.ofNat (counter.toNat - i))).map (· == otp)
  else some false

/-- `counter + i` may overflow. -/
def Hotp.matchesAfter (hotp : Hotp) (otp : UInt32) (counter : UInt64)
    (i : Nat) : Option Bool :=
  if counter.toNat + i < 18446744073709551616 then
    (hotp.generateAt (UInt64.ofNat (counter.toNat + i))).map (· == otp)
  else none

/-- The tries of `1..=window` from the `i`th on. -/
def Hotp.verifyFrom (hotp : Hotp) (otp : UInt32) (counter : UInt64) :
    Nat → Nat → Option Bool
  | 0, _ => some false
  | tries + 1, i => do
    let before ← hotp.matchesBefore otp counter i
    if before then some true
    else do
      let after ← hotp.matchesAfter otp counter i
      if after then some true
      else hotp.verifyFrom otp counter tries (i + 1)

def Hotp.verify (hotp : Hotp) (otp : UInt32) (counter window : UInt64) :
    Option Bool := do
  let code ← hotp.generateAt counter
  if code = otp then some true
  else hotp.verifyFrom otp counter window.toNat 1

/-- The number of the step; a division by zero panics. -/
def Totp.step (totp : Totp) (timestamp : UInt64) : Option UInt64 :=
  if totp.period = 0 then none else some (timestamp / totp.period)

def Totp.generateAt (totp : Totp) (timestamp : UInt64) : Option UInt32 := do
  let counter ← totp.step timestamp
  totp.hotp.generateAt counter

def Totp.verify (totp : Totp) (otp : UInt32) (timestamp window : UInt64) :
    Option Bool := do
  let counter ← totp.step timestamp
  totp.hotp.verify otp counter window

/-! The standards. -/

namespace Rfc

/-- A key of a block, from one that is longer or shorter. -/
def key (digest : Bytes → Bytes) (blockSize : Nat) (secret : Bytes) : Bytes :=
  let fitting := if blockSize < secret.length then digest secret else secret
  fitting ++ replicate (blockSize - fitting.length) 0

def hmac (digest : Bytes → Bytes) (blockSize : Nat) (secret text : Bytes) :
    Bytes :=
  let ipad := replicate blockSize (0x36 : UInt8)
  let opad := replicate blockSize (0x5c : UInt8)
  let k := key digest blockSize secret
  digest (List.zipWith (· ^^^ ·) k opad ++
    digest (List.zipWith (· ^^^ ·) k ipad ++ text))

/-- The dynamic truncation: four bytes from the offset that the low half of the
last byte names, without the highest bit. -/
def dynamicTruncation (mac : Bytes) : Nat :=
  let offset := (mac.getLastD 0).toNat % 16
  ofBe ((mac.drop offset).take 4) % 2147483648

def hotp (alg : Algorithm) (secret : Bytes) (digits counter : Nat) : Nat :=
  dynamicTruncation
      (hmac (digestOf alg) alg.blockSize secret (toBe 8 counter)) %
    Nat.pow 10 digits

/-- The steps begin at the epoch. -/
def totp (alg : Algorithm) (secret : Bytes) (digits period unixTime : Nat) :
    Nat :=
  hotp alg secret digits (unixTime / period)

end Rfc

/-! The lengths of digests, blocks and authentication codes. -/

def Algorithm.digestLength : Algorithm → Nat
  | .sha1 => 20
  | .sha256 => 32
  | .sha512 => 64

theorem length_wordBytes {w : Nat} (word : BitVec w) :
    (wordBytes word).length = w / 8 := by
  rw [wordBytes, length_toBe]

theorem length_digestPadded (alg : Algorithm) (padded : Bytes) :
    (alg.digestPadded padded).length = alg.digestLength := by
  cases alg with
  | sha1 =>
    simp only [digestPadded, Sha1.digest, flatMap_cons, flatMap_nil,
      length_append, length_wordBytes, length_nil, digestLength]
  | sha256 =>
    simp only [digestPadded, Sha2.digest, flatMap_cons, flatMap_nil,
      length_append, length_wordBytes, length_nil, digestLength]
  | sha512 =>
    simp only [digestPadded, Sha2.digest, flatMap_cons, flatMap_nil,
      length_append, length_wordBytes, length_nil, digestLength]

/-- The lengths of messages that the code hashes at all. -/
def Algorithm.fits (alg : Algorithm) (length : Nat) : Prop :=
  alg = .sha512 ∨ length * 8 < 18446744073709551616

variable {alg : Algorithm}

theorem hashBytes_of_fits {data : Bytes} (h : alg.fits data.length) :
    ∃ digest, alg.hashBytes data = some digest ∧
      digest.length = alg.digestLength :=
  ⟨_, hashBytes_eq_digestPadded alg data h, length_digestPadded alg _⟩

theorem hashBytes_of_not_fits {data : Bytes}
    (h : ¬ alg.fits data.length) : alg.hashBytes data = none := by
  cases alg with
  | sha1 =>
    have hlong := fun hfits => h (.inr hfits)
    rw [hashBytes, sha1, if_neg hlong]
  | sha256 =>
    have hlong := fun hfits => h (.inr hfits)
    rw [hashBytes, sha256, if_neg hlong]
  | sha512 => exact absurd (.inl rfl) h

theorem digestLength_le_blockSize (alg : Algorithm) :
    alg.digestLength ≤ alg.blockSize := by
  cases alg <;> decide

theorem copyInto_eq_some {size : Nat} {bytes : Bytes}
    (h : bytes.length ≤ size) :
    copyInto size bytes =
      some (bytes ++ replicate (size - bytes.length) 0) := by
  rw [copyInto, if_pos h]

theorem length_filled {size : Nat} {bytes : Bytes} (h : bytes.length ≤ size) :
    (bytes ++ replicate (size - bytes.length) 0).length = size := by
  rw [length_append, length_replicate]
  omega

variable {key : Bytes}

theorem keyBlock_of_fits (h : alg.fits key.length) :
    ∃ block, keyBlock alg key = some block ∧ block.length = alg.blockSize := by
  rw [keyBlock]
  by_cases hlong : key.length > alg.blockSize
  · obtain ⟨hashed, hhashed, hlength⟩ := hashBytes_of_fits h
    have hle : hashed.length ≤ alg.blockSize := by
      rw [hlength]
      exact digestLength_le_blockSize alg
    rw [if_pos hlong, hhashed, bind_eq_bind, bind_some, copyInto_eq_some hle]
    exact ⟨_, rfl, length_filled hle⟩
  · rw [if_neg hlong, copyInto_eq_some (Nat.le_of_not_lt hlong)]
    exact ⟨_, rfl, length_filled (Nat.le_of_not_lt hlong)⟩

theorem keyBlock_of_not_fits
    (h : ¬ alg.fits key.length) : keyBlock alg key = none := by
  have hlong : key.length > alg.blockSize := by
    have hlarge : ¬ key.length * 8 < 18446744073709551616 :=
      fun hfits => h (.inr hfits)
    have hblock : alg.blockSize ≤ 128 := by cases alg <;> decide
    omega
  rw [keyBlock, if_pos hlong, hashBytes_of_not_fits h]
  rfl

/-- A block and a short text behind it are hashed. -/
theorem fits_block (alg : Algorithm) {length : Nat} (h : length ≤ 64) :
    alg.fits (alg.blockSize + length) := by
  have hblock : alg.blockSize ≤ 128 := by cases alg <;> decide
  refine .inr ?_
  omega

theorem hmac_of_fits {message : Bytes} (hkey : alg.fits key.length)
    (hmessage : alg.fits (alg.blockSize + message.length)) :
    ∃ mac, hmac alg key message = some mac ∧
      mac.length = alg.digestLength := by
  obtain ⟨block, hblock, hlength⟩ := keyBlock_of_fits hkey
  have hinner : alg.fits (block.map (· ^^^ 0x36) ++ message).length := by
    rw [length_append, length_map, hlength]
    exact hmessage
  obtain ⟨inner, hin, hinlen⟩ := hashBytes_of_fits hinner
  have houter : alg.fits (block.map (· ^^^ 0x5c) ++ inner).length := by
    rw [length_append, length_map, hlength, hinlen]
    apply fits_block
    cases alg <;> decide
  obtain ⟨mac, hmac', hmaclen⟩ := hashBytes_of_fits houter
  refine ⟨mac, ?_, hmaclen⟩
  rw [hmac, hblock, bind_eq_bind, bind_some, hin, bind_some, hmac']

theorem hmac_of_not_fits (message : Bytes)
    (hkey : ¬ alg.fits key.length) : hmac alg key message = none := by
  rw [hmac, keyBlock_of_not_fits hkey]
  rfl

/-! The truncation. -/

theorem ofBe_four (b0 b1 b2 b3 : UInt8) :
    ofBe [b0, b1, b2, b3] =
      b0.toNat * 16777216 + b1.toNat * 65536 + b2.toNat * 256 + b3.toNat := by
  simp only [ofBe, reverse_cons, reverse_nil, nil_append, cons_append, ofLe]
  omega

/-- A shifted word has no bit where a smaller one has them. -/
theorem shiftLeft_or {i a b power : Nat} (hpower : Nat.pow 2 i = power)
    (ha : a * power < 4294967296) (hb : b < power) :
    a <<< i % 4294967296 ||| b = a * power + b := by
  subst hpower
  have hshift : a <<< i = a * Nat.pow 2 i := Nat.shiftLeft_eq a i
  rw [hshift, Nat.mod_eq_of_lt ha, ← hshift]
  exact (Nat.shiftLeft_add_eq_or_of_lt hb a).symm

theorem truncated_toNat (b0 b1 b2 b3 : UInt8) :
    (truncated b0 b1 b2 b3).toNat = ofBe [b0, b1, b2, b3] % 2147483648 := by
  have h1 := b1.toNat_lt
  have h2 := b2.toNat_lt
  have h3 := b3.toNat_lt
  have hhigh : b0.toNat &&& 127 = b0.toNat % 128 :=
    Nat.and_two_pow_sub_one_eq_mod b0.toNat 7
  simp only [truncated, UInt32.toNat_or, UInt32.toNat_shiftLeft,
    UInt32.toNat_and, UInt8.toNat_toUInt32, UInt32.reduceToNat,
    Nat.reduceMod, Nat.reducePow, Nat.or_assoc, ofBe_four]
  simp only [Nat.reducePow] at h1 h2 h3
  have hlow : b2.toNat <<< 8 % 4294967296 ||| b3.toNat =
      b2.toNat * 256 + b3.toNat :=
    shiftLeft_or rfl (by omega) (by omega)
  have hmiddle : b1.toNat <<< 16 % 4294967296 ||| (b2.toNat * 256 + b3.toNat) =
        b1.toNat * 65536 + (b2.toNat * 256 + b3.toNat) :=
    shiftLeft_or rfl (by omega) (by omega)
  have hall : (b0.toNat % 128) <<< 24 % 4294967296 |||
      (b1.toNat * 65536 + (b2.toNat * 256 + b3.toNat)) =
        b0.toNat % 128 * 16777216 +
          (b1.toNat * 65536 + (b2.toNat * 256 + b3.toNat)) :=
    shiftLeft_or rfl (by omega) (by omega)
  rw [hhigh, hlow, hmiddle, hall]
  omega

theorem nibble_toNat (b : UInt8) : (b &&& 0x0f).toNat = b.toNat % 16 := by
  rw [UInt8.toNat_and]
  exact Nat.and_two_pow_sub_one_eq_mod b.toNat 4

theorem pow10_of_le {digits : UInt8} (h : digits.toNat ≤ 9) :
    pow10 digits = some (UInt32.ofNat (Nat.pow 10 digits.toNat)) ∧
      (UInt32.ofNat (Nat.pow 10 digits.toNat)).toNat =
        Nat.pow 10 digits.toNat := by
  have hpower : Nat.pow 10 digits.toNat ≤ Nat.pow 10 9 :=
    Nat.pow_le_pow_right (by decide) h
  have hlt : Nat.pow 10 digits.toNat < 4294967296 :=
    Nat.lt_of_le_of_lt hpower (by decide)
  refine ⟨?_, ?_⟩
  · rw [pow10, if_pos hlt]
  · rw [UInt32.toNat_ofNat']
    exact Nat.mod_eq_of_lt hlt

theorem pow10_of_not_le {digits : UInt8} (h : ¬ digits.toNat ≤ 9) :
    pow10 digits = none := by
  have hpower : Nat.pow 10 10 ≤ Nat.pow 10 digits.toNat :=
    Nat.pow_le_pow_right (by decide) (Nat.lt_of_not_le h)
  have hnot : ¬ Nat.pow 10 digits.toNat < 4294967296 :=
    Nat.not_lt_of_le (Nat.le_trans (by decide) hpower)
  rw [pow10, if_neg hnot]

theorem take_four {bytes : Bytes} {offset : Nat}
    (h : offset + 3 < bytes.length) :
    ∃ b0 b1 b2 b3, bytes[offset]? = some b0 ∧ bytes[offset + 1]? = some b1 ∧
      bytes[offset + 2]? = some b2 ∧ bytes[offset + 3]? = some b3 ∧
      (bytes.drop offset).take 4 = [b0, b1, b2, b3] := by
  refine ⟨bytes[offset], bytes[offset + 1], bytes[offset + 2],
    bytes[offset + 3], getElem?_eq_getElem _, getElem?_eq_getElem _,
    getElem?_eq_getElem _, getElem?_eq_getElem _, ?_⟩
  rw [drop_eq_getElem_cons, take_succ_cons, drop_eq_getElem_cons,
    take_succ_cons, drop_eq_getElem_cons, take_succ_cons, drop_eq_getElem_cons,
    take_succ_cons, take_zero]

theorem digestLength_bounds (alg : Algorithm) : 20 ≤ alg.digestLength := by
  cases alg <;> decide

/-- A code is the truncation of the authentication code of its counter, where
there is one and the power of ten fits. -/
theorem generateAt_eq {hotp : Hotp} {counter : UInt64} {mac : Bytes}
    (hmac' : hmac hotp.alg hotp.secret (toBe 8 counter.toNat) = some mac)
    (hlength : mac.length = hotp.alg.digestLength)
    (hdigits : hotp.digits.toNat ≤ 9) :
    hotp.generateAt counter = some (UInt32.ofNat
      (Rfc.dynamicTruncation mac % Nat.pow 10 hotp.digits.toNat)) := by
  have hlong : 20 ≤ mac.length := by
    rw [hlength]
    exact digestLength_bounds hotp.alg
  have hne : mac ≠ [] := by
    intro hnil
    rw [hnil, length_nil] at hlong
    omega
  have hlast := getLast?_eq_some_getLast hne
  have hlastD : mac.getLastD 0 = mac.getLast hne := by
    rw [getLastD_eq_getLast?, hlast, getD_some]
  obtain ⟨hpow, hpownat⟩ := pow10_of_le hdigits
  have hoffset : (mac.getLast hne).toNat % 16 + 3 < mac.length := by omega
  obtain ⟨b0, b1, b2, b3, h0, h1, h2, h3, hfour⟩ := take_four hoffset
  simp only [Hotp.generateAt, hmac', hlast, bind_eq_bind,
    bind_some, nibble_toNat, h0, h1, h2, h3, hpow]
  rw [Rfc.dynamicTruncation, hlastD, hfour, ← truncated_toNat, ← hpownat,
    ← UInt32.toNat_mod, UInt32.ofNat_toNat, UInt32.ofNat_toNat]

theorem dynamicTruncation_lt (mac : Bytes) :
    Rfc.dynamicTruncation mac < 2147483648 :=
  Nat.mod_lt _ (by decide)

theorem code_toNat (mac : Bytes) (power : Nat) :
    (UInt32.ofNat (Rfc.dynamicTruncation mac % power)).toNat =
      Rfc.dynamicTruncation mac % power := by
  have hlt : Rfc.dynamicTruncation mac % power < 2147483648 :=
    Nat.lt_of_le_of_lt (Nat.mod_le _ _) (dynamicTruncation_lt mac)
  rw [UInt32.toNat_ofNat']
  exact Nat.mod_eq_of_lt (by omega)

/-! Where the code is the standards'. -/

/-- The lengths of keys and messages that are hashed as the standard says. -/
def Algorithm.authenticates (alg : Algorithm) (key message : Nat) : Prop :=
  (alg.blockSize < key → alg.hashes key) ∧ alg.hashes (alg.blockSize + message)

theorem length_digestOf (alg : Algorithm) (message : Bytes) :
    (digestOf alg message).length = alg.digestLength := by
  rw [← digestPadded_pad, length_digestPadded]

theorem length_key {alg : Algorithm} (key : Bytes) :
    (Rfc.key (digestOf alg) alg.blockSize key).length =
      alg.blockSize := by
  rw [Rfc.key]
  by_cases hlong : alg.blockSize < key.length
  · simp only [if_pos hlong]
    apply length_filled
    rw [length_digestOf]
    exact digestLength_le_blockSize alg
  · simp only [if_neg hlong]
    exact length_filled (Nat.le_of_not_lt hlong)

theorem keyBlock_eq (h : alg.blockSize < key.length → alg.hashes key.length) :
    keyBlock alg key = some (Rfc.key (digestOf alg) alg.blockSize key) := by
  rw [keyBlock, Rfc.key]
  by_cases hlong : key.length > alg.blockSize
  · have hle : (digestOf alg key).length ≤ alg.blockSize := by
      rw [length_digestOf]
      exact digestLength_le_blockSize alg
    rw [if_pos hlong, hashBytes_of_hashes (h hlong), bind_eq_bind,
      bind_some, copyInto_eq_some hle]
    simp only [if_pos hlong]
  · rw [if_neg hlong, copyInto_eq_some (Nat.le_of_not_lt hlong)]
    simp only [if_neg hlong]

theorem zipWith_replicate {α β γ : Type} (f : α → β → γ) (b : β) (as : List α) :
    List.zipWith f as (replicate as.length b) = as.map (f · b) := by
  induction as with
  | nil => rfl
  | cons a as ih =>
    rw [length_cons, replicate_succ, zipWith_cons_cons, ih, map_cons]

theorem hashes_outer (alg : Algorithm) :
    alg.hashes (alg.blockSize + alg.digestLength) := by
  cases alg with
  | sha1 => exact ⟨.inr (by decide), by decide⟩
  | sha256 => exact ⟨.inr (by decide), by decide⟩
  | sha512 => exact ⟨.inl rfl, by decide⟩

theorem hashes_counter (alg : Algorithm) : alg.hashes (alg.blockSize + 8) := by
  cases alg with
  | sha1 => exact ⟨.inr (by decide), by decide⟩
  | sha256 => exact ⟨.inr (by decide), by decide⟩
  | sha512 => exact ⟨.inl rfl, by decide⟩

theorem hmac_eq {alg : Algorithm} {key message : Bytes}
    (h : alg.authenticates key.length message.length) :
    hmac alg key message =
      some (Rfc.hmac (digestOf alg) alg.blockSize key message) := by
  have hlength := @length_key alg key
  rw [hmac, keyBlock_eq h.1, bind_eq_bind, bind_some, Rfc.hmac]
  generalize Rfc.key (digestOf alg) alg.blockSize key = block at hlength ⊢
  have hinner : (block.map (· ^^^ 0x36) ++ message).length =
      alg.blockSize + message.length := by
    rw [length_append, length_map, hlength]
  rw [hashBytes_of_hashes (by rw [hinner]; exact h.2), bind_some,
    ← hlength, zipWith_replicate, zipWith_replicate]
  apply hashBytes_of_hashes
  rw [length_append, length_map, length_digestOf, hlength]
  exact hashes_outer alg

theorem generateAt_standard {hotp : Hotp} (counter : UInt64)
    (hdigits : hotp.digits.toNat ≤ 9)
    (hsecret : hotp.alg.blockSize < hotp.secret.length →
      hotp.alg.hashes hotp.secret.length) :
    ∃ code, hotp.generateAt counter = some code ∧
      code.toNat = Rfc.hotp hotp.alg hotp.secret hotp.digits.toNat
        counter.toNat := by
  have hmac' := @hmac_eq hotp.alg hotp.secret (toBe 8 counter.toNat)
    ⟨hsecret, by rw [length_toBe]; exact hashes_counter hotp.alg⟩
  have hlength : (Rfc.hmac (digestOf hotp.alg) hotp.alg.blockSize
      hotp.secret (toBe 8 counter.toNat)).length = hotp.alg.digestLength := by
    rw [Rfc.hmac, length_digestOf]
  refine ⟨_, generateAt_eq hmac' hlength hdigits, ?_⟩
  rw [code_toNat]
  rfl

theorem Totp.step_of_ne {totp : Totp} (timestamp : UInt64)
    (h : totp.period ≠ 0) :
    totp.step timestamp = some (timestamp / totp.period) := by
  rw [step, if_neg h]

theorem Totp.step_of_eq {totp : Totp} (timestamp : UInt64)
    (h : totp.period = 0) : totp.step timestamp = none := by
  rw [step, if_pos h]

/-- Digests, authentication codes and one-time codes are those of the standards
where no message that is hashed has one of the lengths that are cut off. -/
theorem codes_standard (alg : Algorithm) (key message : Bytes) (hotp : Hotp)
    (totp : Totp) (counter timestamp : UInt64) :
    (padInput alg.blockSize alg.lengthBytes message =
        pad alg.blockSize alg.lengthBytes message ↔
      cutOff alg.blockSize alg.lengthBytes message.length = false) ∧
    (alg.hashes message.length →
      alg.hashBytes message = some (digestOf alg message)) ∧
    (alg.authenticates key.length message.length → hmac alg key message =
        some (Rfc.hmac (digestOf alg) alg.blockSize key message)) ∧
    (hotp.digits.toNat ≤ 9 → (hotp.alg.blockSize < hotp.secret.length →
        hotp.alg.hashes hotp.secret.length) →
      ∃ code, hotp.generateAt counter = some code ∧
        code.toNat = Rfc.hotp hotp.alg hotp.secret hotp.digits.toNat
          counter.toNat) ∧
    (totp.period ≠ 0 → totp.hotp.digits.toNat ≤ 9 →
      (totp.hotp.alg.blockSize < totp.hotp.secret.length →
        totp.hotp.alg.hashes totp.hotp.secret.length) →
      ∃ code, totp.generateAt timestamp = some code ∧
        code.toNat = Rfc.totp totp.hotp.alg totp.hotp.secret
          totp.hotp.digits.toNat totp.period.toNat timestamp.toNat) := by
  refine ⟨padInput_eq_iff message (blockSizes_algorithm alg),
    hashBytes_of_hashes, hmac_eq, generateAt_standard counter, ?_⟩
  intro hperiod hdigits hsecret
  obtain ⟨code, hcode, hvalue⟩ :=
    generateAt_standard (timestamp / totp.period) hdigits hsecret
  refine ⟨code, ?_, ?_⟩
  · rw [Totp.generateAt, step_of_ne timestamp hperiod]
    exact hcode
  · rw [hvalue, UInt64.toNat_div]
    rfl

theorem codes_standard_account :
    (∃ code, (accountOf "A" "b").generateAt 7 = some code ∧
      code.toNat = Rfc.hotp .sha1 [1, 2, 3] 6 7) ∧
    (∃ code, (mk 30 (accountOf "A" "b") rfl).generateAt 59 = some code ∧
      code.toNat = Rfc.totp .sha1 [1, 2, 3] 6 30 59) ∧
    hashBytes .sha256 [97] = some (Fips.sha256 [97]) ∧
    hmac .sha256 [98] [97] = some (Rfc.hmac Fips.sha256 64 [98] [97]) := by
  obtain ⟨-, hdigest, hmac', hhotp, htotp⟩ := codes_standard .sha256 [98] [97]
    (accountOf "A" "b") (mk 30 (accountOf "A" "b") rfl) 7 59
  have hhashes : Algorithm.sha256.hashes ([97] : Bytes).length :=
    ⟨.inr (by decide), by decide⟩
  refine ⟨hhotp (by decide) ?_, htotp (by decide) (by decide) ?_,
    hdigest hhashes, hmac' ⟨?_, .inr (by decide), by decide⟩⟩
  · intro hlong
    exact absurd hlong (by decide)
  · intro hlong
    exact absurd hlong (by decide)
  · intro hlong
    exact absurd hlong (by decide)

/-! Where the code fails. -/

theorem generateAt_of_fits {hotp : Hotp} (counter : UInt64)
    (hsecret : hotp.alg.fits hotp.secret.length)
    (hdigits : hotp.digits.toNat ≤ 9) :
    ∃ code, hotp.generateAt counter = some code ∧
      code.toNat < Nat.pow 10 hotp.digits.toNat ∧ code.toNat < 2147483648 := by
  have hmessage : hotp.alg.fits
      (hotp.alg.blockSize + (toBe 8 counter.toNat).length) := by
    rw [length_toBe]
    exact fits_block hotp.alg (by decide)
  obtain ⟨mac, hmac', hlength⟩ := hmac_of_fits hsecret hmessage
  refine ⟨_, generateAt_eq hmac' hlength hdigits, ?_, ?_⟩
  · rw [code_toNat]
    exact Nat.mod_lt _ (Nat.pow_pos (by decide))
  · rw [code_toNat]
    exact Nat.lt_of_le_of_lt (Nat.mod_le _ _) (dynamicTruncation_lt mac)

theorem generateAt_of_not {hotp : Hotp} (counter : UInt64)
    (h : ¬ (hotp.alg.fits hotp.secret.length ∧ hotp.digits.toNat ≤ 9)) :
    hotp.generateAt counter = none := by
  by_cases hsecret : hotp.alg.fits hotp.secret.length
  · have hpow := pow10_of_not_le fun hdigits => h ⟨hsecret, hdigits⟩
    simp only [Hotp.generateAt, hpow, bind_eq_bind, bind_none, bind_fun_none]
  · rw [Hotp.generateAt, hmac_of_not_fits _ hsecret]
    rfl

section Tries

variable {hotp : Hotp} {otp : UInt32} {counter : UInt64}

theorem matches_of_codes (hcodes : ∀ c, ∃ code, hotp.generateAt c = some code)
    (i : Nat) (hroom : counter.toNat + i < 18446744073709551616) :
    (∃ before, hotp.matchesBefore otp counter i = some before) ∧
      ∃ after, hotp.matchesAfter otp counter i = some after := by
  obtain ⟨earlier, hearlier⟩ := hcodes (UInt64.ofNat (counter.toNat - i))
  obtain ⟨later, hlater⟩ := hcodes (UInt64.ofNat (counter.toNat + i))
  constructor
  · rw [Hotp.matchesBefore]
    by_cases hback : i ≤ counter.toNat
    · rw [if_pos hback, hearlier]
      exact ⟨_, rfl⟩
    · rw [if_neg hback]
      exact ⟨false, rfl⟩
  · rw [Hotp.matchesAfter, if_pos hroom, hlater]
    exact ⟨_, rfl⟩

/-- The tries run through where every counter has a code and none overflows. -/
theorem verifyFrom_of_codes
    (hcodes : ∀ c, ∃ code, hotp.generateAt c = some code) (tries i : Nat)
    (hroom : counter.toNat + i + tries ≤ 18446744073709551616) :
    ∃ found, hotp.verifyFrom otp counter tries i = some found := by
  induction tries generalizing i with
  | zero => exact ⟨false, rfl⟩
  | succ tries ih =>
    obtain ⟨⟨before, hbefore⟩, after, hafter⟩ :=
      @matches_of_codes hotp otp counter hcodes i (by omega)
    rw [Hotp.verifyFrom, hbefore, hafter]
    cases before with
    | true => exact ⟨true, rfl⟩
    | false =>
      cases after with
      | true => exact ⟨true, rfl⟩
      | false => exact ih (i + 1) (by omega)

section

variable (hmiss : ∀ c, hotp.generateAt c ≠ some otp)
include hmiss

/-- A try for a code that no counter has either fails or goes on. -/
theorem map_miss (c : UInt64) :
    (hotp.generateAt c).map (· == otp) = none ∨
      (hotp.generateAt c).map (· == otp) = some false := by
  cases hcode : hotp.generateAt c with
  | none => exact .inl rfl
  | some code =>
    have hne : code ≠ otp := by
      intro heq
      exact hmiss c (heq ▸ hcode)
    rw [map_some, beq_false_of_ne hne]
    exact .inr rfl

theorem matchesBefore_miss (i : Nat) :
    hotp.matchesBefore otp counter i = none ∨
      hotp.matchesBefore otp counter i = some false := by
  rw [Hotp.matchesBefore]
  by_cases hback : i ≤ counter.toNat
  · rw [if_pos hback]
    exact map_miss hmiss _
  · rw [if_neg hback]
    exact .inr rfl

theorem matchesAfter_miss (i : Nat) :
    hotp.matchesAfter otp counter i = none ∨
      (hotp.matchesAfter otp counter i = some false ∧
        counter.toNat + i < 18446744073709551616) := by
  rw [Hotp.matchesAfter]
  by_cases hroom : counter.toNat + i < 18446744073709551616
  · rw [if_pos hroom]
    rcases map_miss hmiss (UInt64.ofNat (counter.toNat + i)) with hnone | hno
    · exact .inl hnone
    · exact .inr ⟨hno, hroom⟩
  · rw [if_neg hroom]
    exact .inl rfl

end

/-- A code that no counter has is looked for until a counter overflows. -/
theorem verifyFrom_of_overflow (hmiss : ∀ c, hotp.generateAt c ≠ some otp)
    (tries i : Nat) (hbelow : counter.toNat + i ≤ 18446744073709551616)
    (hover : 18446744073709551616 < counter.toNat + i + tries) :
    hotp.verifyFrom otp counter tries i = none := by
  induction tries generalizing i with
  | zero => omega
  | succ tries ih =>
    rw [Hotp.verifyFrom]
    rcases matchesBefore_miss hmiss i with hbefore | hbefore
    · rw [hbefore]
      rfl
    · rw [hbefore]
      rcases matchesAfter_miss hmiss i with hafter | ⟨hafter, hroom⟩
      · rw [hafter]
        rfl
      · rw [hafter]
        exact ih (i + 1) (by omega) (by omega)

end Tries

/-- No code is the greatest number of its type. -/
theorem generateAt_ne_last (hotp : Hotp) (c : UInt64) :
    hotp.generateAt c ≠ some 4294967295 := by
  intro hcode
  by_cases h : hotp.alg.fits hotp.secret.length ∧ hotp.digits.toNat ≤ 9
  · obtain ⟨code, hsome, -, hlt⟩ := generateAt_of_fits c h.1 h.2
    rw [hcode, some.injEq] at hsome
    rw [← hsome] at hlt
    exact absurd hlt (by decide)
  · rw [generateAt_of_not c h] at hcode
    exact absurd hcode (by simp)

/-- What a password can be asked for without a failure. -/
def Hotp.answers (hotp : Hotp) (counter window : UInt64) : Prop :=
  (∃ code, hotp.generateAt counter = some code ∧
      code.toNat < Nat.pow 10 hotp.digits.toNat) ∧
    ∀ otp, ∃ found, hotp.verify otp counter window = some found

def Totp.answers (totp : Totp) (timestamp window : UInt64) : Prop :=
  (∃ code, totp.generateAt timestamp = some code ∧
      code.toNat < Nat.pow 10 totp.hotp.digits.toNat) ∧
    ∀ otp, ∃ found, totp.verify otp timestamp window = some found

/-- The numbers with which no operation overflows. -/
def Hotp.inRange (hotp : Hotp) (counter window : UInt64) : Prop :=
  hotp.digits.toNat ≤ 9 ∧ hotp.alg.fits hotp.secret.length ∧
    counter.toNat + window.toNat < 18446744073709551616

theorem Hotp.answers_iff (hotp : Hotp) (counter window : UInt64) :
    hotp.answers counter window ↔ hotp.inRange counter window := by
  constructor
  · rintro ⟨⟨code, hcode, -⟩, hverify⟩
    by_cases h : hotp.alg.fits hotp.secret.length ∧ hotp.digits.toNat ≤ 9
    · refine ⟨h.2, h.1, ?_⟩
      by_contra hover
      obtain ⟨found, hfound⟩ := hverify 4294967295
      have hne : code ≠ 4294967295 := by
        intro heq
        exact generateAt_ne_last hotp counter (heq ▸ hcode)
      have hcounter := counter.toNat_lt
      have hnone := @verifyFrom_of_overflow hotp 4294967295 counter
        (generateAt_ne_last hotp) window.toNat 1 (by omega) (by omega)
      rw [Hotp.verify, hcode, bind_eq_bind, bind_some,
        if_neg hne, hnone] at hfound
      exact absurd hfound (by simp)
    · rw [generateAt_of_not counter h] at hcode
      exact absurd hcode (by simp)
  · rintro ⟨hdigits, hsecret, hroom⟩
    have hcodes : ∀ c, ∃ code, hotp.generateAt c = some code := by
      intro c
      obtain ⟨code, hcode, -, -⟩ := generateAt_of_fits c hsecret hdigits
      exact ⟨code, hcode⟩
    obtain ⟨code, hcode, hpower, -⟩ :=
      generateAt_of_fits counter hsecret hdigits
    refine ⟨⟨code, hcode, hpower⟩, ?_⟩
    intro otp
    obtain ⟨found, hfound⟩ := @verifyFrom_of_codes hotp otp counter hcodes
      window.toNat 1 (by omega)
    rw [Hotp.verify, hcode, bind_eq_bind, bind_some]
    by_cases hmatch : code = otp
    · rw [if_pos hmatch]
      exact ⟨true, rfl⟩
    · rw [if_neg hmatch]
      exact ⟨found, hfound⟩

theorem Totp.answers_iff (totp : Totp) (timestamp window : UInt64) :
    totp.answers timestamp window ↔ totp.period ≠ 0 ∧
        totp.hotp.inRange (timestamp / totp.period) window := by
  by_cases hperiod : totp.period = 0
  · constructor
    · rintro ⟨⟨code, hcode, -⟩, -⟩
      rw [Totp.generateAt, step_of_eq timestamp hperiod] at hcode
      exact absurd hcode (by simp)
    · intro hrange
      exact absurd hperiod hrange.1
  · have hstep := step_of_ne timestamp hperiod
    rw [← Hotp.answers_iff]
    simp only [Totp.answers, Totp.generateAt, Totp.verify, hstep, bind_eq_bind,
      bind_some, Hotp.answers, ne_eq, hperiod, not_false_eq_true, true_and]

/-- What a URI is accepted with is asked without a failure exactly where its
numbers are in range. -/
theorem accepted_answers_iff (uri : Str) (counter timestamp window : UInt64) :
    (∀ hotp, Hotp.fromUri uri = .ok hotp →
      (hotp.answers counter window ↔ hotp.inRange counter window)) ∧
    (∀ totp, Totp.fromUri uri = .ok totp → (totp.answers timestamp window ↔
        totp.period ≠ 0 ∧
          totp.hotp.inRange (timestamp / totp.period) window)) :=
  ⟨fun hotp _ => Hotp.answers_iff hotp counter window,
    fun totp _ => Totp.answers_iff totp timestamp window⟩

/-- A password that is used up to the last counter. -/
theorem accepted_answers_account :
    (accountOf "A" "b").answers 18446744073709551613 2 ∧
      (mk 30 (accountOf "A" "b") rfl).answers 59 2 := by
  have hlabel : (accountOf "A" "b").label ≠ [] := by decide +kernel
  have hhotp : Hotp.fromUri (accountOf "A" "b").toUri =
      .ok (accountOf "A" "b") :=
    (Hotp.fromUri_toUri_iff hlabel).mpr (by decide +kernel)
  have htotp : Totp.fromUri (mk 30 (accountOf "A" "b") rfl).toUri =
      .ok (mk 30 (accountOf "A" "b") rfl) :=
    (Totp.fromUri_toUri_iff hlabel).mpr (by decide +kernel)
  refine ⟨((accepted_answers_iff _ 18446744073709551613 59 2).1 _ hhotp).mpr ?_,
    ((accepted_answers_iff _ 18446744073709551613 59 2).2 _ htotp).mpr ?_⟩
  · exact ⟨by decide, .inr (by decide), by decide⟩
  · exact ⟨by decide, by decide, .inr (by decide), by decide⟩

/-- A link with a period of zero is accepted, and no code can be made. -/
theorem zero_period_accepted :
    ∃ uri totp, Totp.fromUri uri = .ok totp ∧ totp.generateAt 0 = none := by
  have hlabel : (accountOf "A" "b").label ≠ [] := by decide +kernel
  refine ⟨_, mk 0 (accountOf "A" "b") rfl,
    (Totp.fromUri_toUri_iff hlabel).mpr (by decide +kernel), ?_⟩
  rfl

end NiceTerm.Otp
