/-
One-time passwords as URIs, as `to_uri` writes them and `from_uri` reads them.
-/
import Mathlib.Data.List.Nodup
import NiceTerm.Lib.Fallible
import NiceTerm.Otp.Encoding

namespace NiceTerm.Otp

open Fallible List Url
open RustStr

inductive Algorithm
  | sha1
  | sha256
  | sha512
deriving DecidableEq, Repr

def Algorithm.toString : Algorithm → Str
  | .sha1 => "SHA1".toList
  | .sha256 => "SHA256".toList
  | .sha512 => "SHA512".toList

structure Hotp where
  alg : Algorithm
  issuer : Str
  label : Str
  digits : UInt8
  counter : UInt64
  secret : Bytes
deriving DecidableEq, Repr

/-- The counter of the wrapped `Hotp` is not used. -/
structure Totp where
  period : UInt64
  hotp : Hotp
  unused : hotp.counter = 0

def Totp.new (alg : Algorithm) (issuer label : Str) (digits : UInt8)
    (period : UInt64) (secret : Bytes) : Totp :=
  ⟨period, ⟨alg, issuer, label, digits, 0, secret⟩, rfl⟩

inductive ParseUriError
  | invalidPrefix
  | invalidFormat
  | invalidLabel
  | invalidIssuer
  | invalidDigits
  | invalidPeriod
  | invalidCounter
  | invalidSecret
  | invalidAlgorithm
  | issuerMismatch
  | missingSecret
  | missingCounter
deriving DecidableEq, Repr

/-- What the two kinds of URI have in common; `scheme` is what they begin with
and `last` the parameter they end with. -/
def writeUri (scheme : String) (hotp : Hotp) (last : Str) : Str :=
  let secret := Base32.encode hotp.secret
  let label :=
    if hotp.issuer.isEmpty then Url.encode (utf8 hotp.label)
    else Url.encode (utf8 (hotp.issuer ++ ':' :: hotp.label))
  let issuer :=
    if hotp.issuer.isEmpty then []
    else "&issuer=".toList ++ Url.encode (utf8 hotp.issuer)
  scheme.toList ++ label ++ "?secret=".toList ++ secret ++ issuer ++
    "&algorithm=".toList ++ hotp.alg.toString ++
    "&digits=".toList ++ decimal hotp.digits.toNat ++ last

def Hotp.toUri (hotp : Hotp) : Str :=
  writeUri "otpauth://hotp/" hotp
    ("&counter=".toList ++ decimal hotp.counter.toNat)

def Totp.toUri (totp : Totp) : Str :=
  writeUri "otpauth://totp/" totp.hotp
    ("&period=".toList ++ decimal totp.period.toNat)

/-- `split_once('=')`, or a key without a value. -/
def keyValue (param : Str) : Str × Str :=
  (splitOnce '=' param).getD (param, [])

variable (params : List (Str × Str))

/-- A `HashMap` keeps the last value of a key. -/
def valueOf (key : String) : Option Str :=
  (params.reverse.find? fun param => param.1 = key.toList).map (·.2)

/-- `parse::<u8>` and `parse::<u64>`. -/
def parseU8 (text : Str) : Option UInt8 :=
  (parseUnsigned 256 text).map UInt8.ofNat

def parseU64 (text : Str) : Option UInt64 :=
  (parseUnsigned 18446744073709551616 text).map UInt64.ofNat

/-- `to_uppercase`, as far as its result can be the name of an algorithm: of
the other letters only the long s becomes one of those. -/
def toUppercase (text : Str) : Str :=
  text.map fun c => if c = 'ſ' then 'S' else c.toUpper

def algorithmOf (text : Str) : Except ParseUriError Algorithm :=
  let alg := toUppercase text
  if alg = "SHA1".toList then .ok .sha1
  else if alg = "SHA256".toList then .ok .sha256
  else if alg = "SHA512".toList then .ok .sha512
  else .error .invalidAlgorithm

/-- The error of a step is replaced by one of the URI. -/
def orInvalid {ε α : Type} (result : Except ε α) (error : ParseUriError) :
    Except ParseUriError α :=
  result.mapError fun _ => error

theorem orInvalid_ok {ε α : Type} (a : α) (error : ParseUriError) :
    orInvalid (.ok a : Except ε α) error = .ok a := rfl

def issuerOf : Option Str → Option Str → Except ParseUriError Str
  | none, none => .ok []
  | none, some fromParam => .ok fromParam
  | some fromLabel, none => .ok fromLabel
  | some fromLabel, some fromParam =>
    if fromLabel ≠ fromParam then .error .issuerMismatch else .ok fromParam

/-- The part in front of the first colon, if there is one, and the rest. -/
def splitLabel (labelDecoded : Str) : Option Str × Str :=
  match splitOnce ':' labelDecoded with
  | some parts => (some parts.1, parts.2)
  | none => (none, labelDecoded)

def optional {α : Type} (value : Option Str)
    (read : Str → Except ParseUriError α) : Except ParseUriError (Option α) :=
  match value with
  | none => .ok none
  | some text => do
    let found ← read text
    pure (some found)

/-- `from_uri`; `number` reads the parameter in which the kinds differ. -/
def readUri (scheme : String)
    (number : List (Str × Str) → Except ParseUriError UInt64) (uri : Str) :
    Except ParseUriError (Hotp × UInt64) := do
  let rest ← orError (stripPrefix scheme.toList uri) .invalidPrefix
  let parts ← orError (splitOnce '?' rest) .invalidFormat
  stopIf parts.1.isEmpty .invalidLabel
  let labelDecoded ← orInvalid (Url.decode parts.1) .invalidLabel
  let label := splitLabel labelDecoded
  let params := (parts.2.splitOn '&').map keyValue
  let digits ← optional (valueOf params "digits") fun text =>
    orError (parseU8 text) .invalidDigits
  let number ← number params
  let rawSecret ← orError (valueOf params "secret") .missingSecret
  let secret ← orInvalid (Base32.decode rawSecret) .invalidSecret
  let issuerFromParam ← optional (valueOf params "issuer") fun iss =>
    orInvalid (Url.decode iss) .invalidIssuer
  let issuer ← issuerOf label.1 issuerFromParam
  let alg ← optional (valueOf params "algorithm") algorithmOf
  pure (⟨alg.getD .sha1, issuer, label.2, digits.getD 6, 0, secret⟩, number)

def counterOf : Except ParseUriError UInt64 := do
  let text ← orError (valueOf params "counter") .missingCounter
  orError (parseU64 text) .invalidCounter

def Hotp.fromUri (uri : Str) : Except ParseUriError Hotp := do
  let read ← readUri "otpauth://hotp/" counterOf uri
  pure { read.1 with counter := read.2 }

def periodOf : Except ParseUriError UInt64 := do
  let period ← optional (valueOf params "period") fun text =>
    orError (parseU64 text) .invalidPeriod
  pure (period.getD 30)

def Totp.fromUri (uri : Str) : Except ParseUriError Totp := do
  let read ← readUri "otpauth://totp/" periodOf uri
  pure (Totp.new read.1.alg read.1.issuer read.1.label read.1.digits read.2
    read.1.secret)

/-! What is written is read again, but for the colons. -/

theorem valueOf_of_mem {params : List (Str × Str)} {key : String} {value : Str}
    (hdistinct : (params.map (·.1)).Nodup)
    (hmem : (key.toList, value) ∈ params) :
    valueOf params key = some value := by
  rw [valueOf, Option.map_eq_some_iff]
  cases hfind : params.reverse.find? fun param => param.1 = key.toList with
  | none =>
    have hnot := find?_eq_none.mp hfind _ (mem_reverse.mpr hmem)
    exact absurd (decide_eq_true rfl) hnot
  | some found =>
    have hfound := mem_reverse.mp (mem_of_find?_eq_some hfind)
    have hkey := find?_some hfind
    rw [decide_eq_true_eq] at hkey
    have hsame := inj_on_of_nodup_map hdistinct hfound hmem hkey
    exact ⟨found, rfl, congrArg Prod.snd hsame⟩

theorem valueOf_eq_none {params : List (Str × Str)} {key : String}
    (h : key.toList ∉ params.map (·.1)) : valueOf params key = none := by
  rw [valueOf, Option.map_eq_none_iff, find?_eq_none]
  intro param hparam hkey
  apply h
  rw [← of_decide_eq_true hkey]
  exact mem_map_of_mem (mem_reverse.mp hparam)

def writePair (pair : Str × Str) : Str := pair.1 ++ '=' :: pair.2

theorem keyValue_writePair {pair : Str × Str} (h : '=' ∉ pair.1) :
    keyValue (writePair pair) = pair := by
  rw [keyValue, writePair, splitOnce_append h]
  rfl

/-- The parameters that `to_uri` writes. -/
def writtenParams (hotp : Hotp) (last : Str × Str) : List (Str × Str) :=
  [("secret".toList, Base32.encode hotp.secret)] ++
    (if hotp.issuer.isEmpty then []
      else [("issuer".toList, Url.encode (utf8 hotp.issuer))]) ++
    [("algorithm".toList, hotp.alg.toString),
      ("digits".toList, decimal hotp.digits.toNat), last]

section

variable (hotp : Hotp) (last : Str × Str)
include hotp last

theorem secret_mem :
    ("secret".toList, Base32.encode hotp.secret) ∈ writtenParams hotp last :=
  mem_append_left _ (mem_append_left _ mem_cons_self)

theorem algorithm_mem :
    ("algorithm".toList, hotp.alg.toString) ∈ writtenParams hotp last :=
  mem_append_right _ mem_cons_self

theorem digits_mem :
    ("digits".toList, decimal hotp.digits.toNat) ∈ writtenParams hotp last :=
  mem_append_right _ (mem_cons_of_mem _ mem_cons_self)

theorem last_mem :
    last ∈ writtenParams hotp last :=
  mem_append_right _ (mem_cons_of_mem _ (mem_cons_of_mem _ mem_cons_self))

end

variable {hotp : Hotp}

theorem issuer_mem (h : hotp.issuer.isEmpty = false) (last : Str × Str) :
    ("issuer".toList, Url.encode (utf8 hotp.issuer)) ∈
      writtenParams hotp last := by
  rw [writtenParams, h, if_neg Bool.false_ne_true]
  exact mem_append_left _ (mem_append_right _ mem_cons_self)

variable {c : Char}

theorem mem_alphabet_of_mem_encode {data : Bytes}
    (h : c ∈ Base32.encode data) : c ∈ Base32.alphabet := by
  have hall : ∀ i : Fin 32, Base32.symbol i ∈ Base32.alphabet := by
    decide +kernel
  obtain ⟨index, hindex, rfl⟩ := mem_map.mp h
  exact hall ⟨index, Base32.encodeFrom_lt 0 0 data index hindex⟩

/-- The label as it is written, in front of the parameters. -/
def writtenLabel (hotp : Hotp) : Str :=
  if hotp.issuer.isEmpty then hotp.label
  else hotp.issuer ++ ':' :: hotp.label

theorem writeUri_eq (scheme : String) (hotp : Hotp) (last : Str × Str) :
    writeUri scheme hotp ('&' :: writePair last) =
      scheme.toList ++ (Url.encode (utf8 (writtenLabel hotp)) ++
        '?' :: ['&'].intercalate
          ((writtenParams hotp last).map writePair)) := by
  simp only [writeUri, writtenLabel, writtenParams]
  cases hotp.issuer.isEmpty with
  | true => simp [writePair, List.intercalate]
  | false => simp [writePair, List.intercalate]

theorem digit_not_mark (h : c ∈ marks) (value : Nat) : c ∉ decimal value := by
  intro hmem
  have hdigit := isAsciiDigit_of_mem_decimal value c hmem
  have hnot : (marks.all fun c => !isAsciiDigit c) = true := by decide
  have hc := all_eq_true.mp hnot c h
  rw [hdigit] at hc
  exact absurd hc Bool.false_ne_true

theorem not_mem_value (hc : c ∈ marks) {last : Str × Str}
    (hlast : c ∉ last.2) : ∀ pair ∈ writtenParams hotp last, c ∉ pair.2 := by
  have hsymbols : (marks.all fun c => !Base32.alphabet.contains c) =
      true := by decide +kernel
  have hnames (alg : Algorithm) :
      (marks.all fun c => !alg.toString.contains c) = true := by
    cases alg <;> decide +kernel
  have hsymbol := all_eq_true.mp hsymbols c hc
  have hname := all_eq_true.mp (hnames hotp.alg) c hc
  rw [Bool.not_eq_true', contains_eq_mem, decide_eq_false_iff_not]
    at hsymbol hname
  intro pair hpair
  simp only [writtenParams, mem_append, mem_cons, not_mem_nil,
    or_false] at hpair
  rcases hpair with (rfl | hissuer) | rfl | rfl | rfl
  · exact fun hmem => hsymbol (mem_alphabet_of_mem_encode hmem)
  · split at hissuer
    · exact absurd hissuer not_mem_nil
    · rw [mem_singleton.mp hissuer]
      exact not_mem_encode hc _
  · exact hname
  · exact digit_not_mark hc _
  · exact hlast

theorem not_mem_key (hc : c ∈ marks) {last : Str × Str}
    (hlast : c ∉ last.1) : ∀ pair ∈ writtenParams hotp last, c ∉ pair.1 := by
  have hall : (marks.all fun c => !"secret".toList.contains c &&
      !"issuer".toList.contains c && !"algorithm".toList.contains c &&
        !"digits".toList.contains c) = true := by decide +kernel
  have hkeys := all_eq_true.mp hall c hc
  simp only [Bool.and_eq_true, Bool.not_eq_true', contains_eq_mem,
    decide_eq_false_iff_not] at hkeys
  obtain ⟨⟨⟨hsecret, hissuer⟩, halgorithm⟩, hdigits⟩ := hkeys
  intro pair hpair
  simp only [writtenParams, mem_append, mem_cons, not_mem_nil,
    or_false] at hpair
  rcases hpair with (rfl | hmem) | rfl | rfl | rfl
  · exact hsecret
  · split at hmem
    · exact absurd hmem not_mem_nil
    · rw [mem_singleton.mp hmem]
      exact hissuer
  · exact halgorithm
  · exact hdigits
  · exact hlast

theorem params_read {hotp : Hotp} {last : Str × Str}
    (hkey : ∀ c ∈ marks, c ∉ last.1) (hvalue : ∀ c ∈ marks, c ∉ last.2) :
    ((['&'].intercalate ((writtenParams hotp last).map writePair)).splitOn
      '&').map keyValue = writtenParams hotp last := by
  have hamp : '&' ∈ marks := by decide
  have heq : '=' ∈ marks := by decide
  rw [splitOn_intercalate]
  · rw [map_map, map_congr_left, map_id]
    intro pair hpair
    exact keyValue_writePair (not_mem_key heq (hkey _ heq) pair hpair)
  · intro piece hpiece
    obtain ⟨pair, hpair, rfl⟩ := mem_map.mp hpiece
    rw [writePair, mem_append, mem_cons, not_or, not_or]
    exact ⟨not_mem_key hamp (hkey _ hamp) pair hpair, by decide,
      not_mem_value hamp (hvalue _ hamp) pair hpair⟩
  · exact ne_nil_of_mem (mem_map_of_mem (last_mem hotp last))

/-- The parameter in which the kinds differ. -/
structure LastParam (key : String) (value : Str) : Prop where
  name : ∀ c ∈ marks, c ∉ key.toList
  value : ∀ c ∈ marks, c ∉ value
  fresh : key.toList ∉ ["secret".toList, "issuer".toList, "algorithm".toList,
    "digits".toList]

theorem keys_distinct {hotp : Hotp} {key : String} {value : Str}
    (h : LastParam key value) :
    ((writtenParams hotp (key.toList, value)).map (·.1)).Nodup := by
  have hfour : ["secret".toList, "issuer".toList, "algorithm".toList,
      "digits".toList].Nodup := by decide +kernel
  have hall : ["secret".toList, "issuer".toList, "algorithm".toList,
      "digits".toList, key.toList].Nodup := by
    have hapart : ∀ a ∈ ["secret".toList, "issuer".toList,
        "algorithm".toList, "digits".toList], ∀ b ∈ [key.toList], a ≠ b := by
      intro a ha b hb hab
      exact h.fresh (mem_singleton.mp hb ▸ hab ▸ ha)
    exact nodup_append.mpr
      ⟨hfour, nodup_singleton key.toList, hapart⟩
  refine Nodup.sublist ?_ hall
  rw [writtenParams]
  split
  · exact .cons_cons _ (.cons _ (Sublist.refl _))
  · exact Sublist.refl _

theorem readUri_of {scheme : String} {uri rest decoded rawSecret : Str}
    {parts : Str × Str} {params : List (Str × Str)}
    (number : List (Str × Str) → Except ParseUriError UInt64)
    {digits : Option UInt8} {n : UInt64} {secret : Bytes}
    {fromParam : Option Str} {alg : Option Algorithm}
    (hrest : stripPrefix scheme.toList uri = some rest)
    (hparts : splitOnce '?' rest = some parts)
    (hlabel : parts.1.isEmpty = false)
    (hdecoded : Url.decode parts.1 = .ok decoded)
    (hparams : (parts.2.splitOn '&').map keyValue = params)
    (hdigits : optional (valueOf params "digits") (fun text =>
      orError (parseU8 text) .invalidDigits) = .ok digits)
    (hnumber : number params = .ok n)
    (hraw : valueOf params "secret" = some rawSecret)
    (hsecret : Base32.decode rawSecret = .ok secret)
    (hissuer : optional (valueOf params "issuer") (fun iss =>
      orInvalid (Url.decode iss) .invalidIssuer) = .ok fromParam)
    (halg : optional (valueOf params "algorithm") algorithmOf = .ok alg) :
    readUri scheme number uri = (do
        let issuer ← issuerOf (splitLabel decoded).1 fromParam
        pure (⟨alg.getD .sha1, issuer, (splitLabel decoded).2, digits.getD 6, 0,
          secret⟩, n)) := by
  have hcheck : ¬ parts.1.isEmpty = true := by
    rw [hlabel]
    exact Bool.false_ne_true
  simp only [readUri, hrest, orError_some, ok_bind, hparts,
    stopIf_of_not hcheck, hdecoded, orInvalid_ok, hparams, hdigits, hnumber,
    hraw, hsecret, hissuer, halg]

/-- What is read from a URI that was written, with what the label says of the
issuer. -/
theorem readUri_writeUri (scheme : String) {key : String}
    {value : Str} (hlast : LastParam key value)
    {number : List (Str × Str) → Except ParseUriError UInt64} {n : UInt64}
    (hnumber : number (writtenParams hotp (key.toList, value)) = .ok n)
    (hlabel : writtenLabel hotp ≠ []) :
    readUri scheme number
        (writeUri scheme hotp ('&' :: writePair (key.toList, value))) =
      (do
        let split := splitLabel (writtenLabel hotp)
        let issuer ← issuerOf split.1
          (if hotp.issuer.isEmpty then none else some hotp.issuer)
        pure
          (⟨hotp.alg, issuer, split.2, hotp.digits, 0, hotp.secret⟩, n)) := by
  have hquestion : '?' ∈ marks := by decide
  have hencoded : (Url.encode (utf8 (writtenLabel hotp))).isEmpty = false := by
    rw [isEmpty_eq_false_iff]
    intro hnil
    have hdecode := Url.decode_encoded (writtenLabel hotp)
    rw [hnil] at hdecode
    exact hlabel (Except.ok.inj hdecode).symm
  have hdistinct := @keys_distinct hotp key value hlast
  have hdigits : valueOf (writtenParams hotp (key.toList, value)) "digits" =
      some (decimal hotp.digits.toNat) :=
    valueOf_of_mem hdistinct (digits_mem hotp _)
  have hsecret : valueOf (writtenParams hotp (key.toList, value)) "secret" =
      some (Base32.encode hotp.secret) :=
    valueOf_of_mem hdistinct (secret_mem hotp _)
  have halg : valueOf (writtenParams hotp (key.toList, value)) "algorithm" =
      some hotp.alg.toString :=
    valueOf_of_mem hdistinct (algorithm_mem hotp _)
  have hissuer : valueOf (writtenParams hotp (key.toList, value)) "issuer" =
      if hotp.issuer.isEmpty then none
      else some (Url.encode (utf8 hotp.issuer)) := by
    cases hempty : hotp.issuer.isEmpty with
    | true =>
      rw [if_pos rfl]
      apply valueOf_eq_none
      have hthree : "issuer".toList ∉ ["secret".toList,
          "algorithm".toList, "digits".toList] := by decide +kernel
      have hknown : "issuer".toList ∈ ["secret".toList, "issuer".toList,
          "algorithm".toList, "digits".toList] := by decide +kernel
      rw [writtenParams, hempty, if_pos rfl]
      change "issuer".toList ∉ ["secret".toList, "algorithm".toList,
        "digits".toList] ++ [key.toList]
      rw [mem_append, mem_singleton, not_or]
      exact ⟨hthree, fun heq => hlast.fresh (heq ▸ hknown)⟩
    | false =>
      rw [if_neg Bool.false_ne_true]
      exact valueOf_of_mem hdistinct (issuer_mem hempty _)
  have hreadDigits : optional (some (decimal hotp.digits.toNat)) (fun text =>
      orError (parseU8 text) ParseUriError.invalidDigits) =
        .ok (some hotp.digits) := by
    rw [optional, parseU8, parseUnsigned_decimal hotp.digits.toNat_lt,
      Option.map_some, UInt8.ofNat_toNat]
    rfl
  have hreadName : optional (some hotp.alg.toString) algorithmOf =
      .ok (some hotp.alg) := by
    cases hotp.alg <;> decide +kernel
  have hstart := stripPrefix_append scheme.toList
    (Url.encode (utf8 (writtenLabel hotp)) ++ '?' ::
      ['&'].intercalate
        ((writtenParams hotp (key.toList, value)).map writePair))
  have hsplit := splitOnce_append (not_mem_encode hquestion
      (utf8 (writtenLabel hotp)))
    (['&'].intercalate ((writtenParams hotp (key.toList, value)).map writePair))
  have hparams := @params_read hotp (key.toList, value) hlast.name hlast.value
  have hreadIssuer : optional
      (valueOf (writtenParams hotp (key.toList, value)) "issuer")
      (fun iss => orInvalid (Url.decode iss) .invalidIssuer) =
        .ok (if hotp.issuer.isEmpty then none else some hotp.issuer) := by
    rw [hissuer]
    cases hotp.issuer.isEmpty with
    | true => rfl
    | false =>
      rw [if_neg Bool.false_ne_true, if_neg Bool.false_ne_true, optional,
        Url.decode_encoded]
      rfl
  rw [writeUri_eq, readUri_of number hstart hsplit hencoded
    (Url.decode_encoded _) hparams (hdigits ▸ hreadDigits) hnumber hsecret
    (Base32.decode_encoded _) hreadIssuer (halg ▸ hreadName)]
  rfl

/-- The first colon of the written label is the one behind the issuer, or there
is none. -/
def Separable (hotp : Hotp) : Prop :=
  ':' ∉ hotp.issuer ∧ (hotp.issuer = [] → ':' ∉ hotp.label)

instance (hotp : Hotp) : Decidable (Separable hotp) :=
  inferInstanceAs (Decidable (_ ∧ _))

theorem splitLabel_append {front : Str} (h : ':' ∉ front) (back : Str) :
    splitLabel (front ++ ':' :: back) = (some front, back) := by
  rw [splitLabel, splitOnce_append h]

theorem exists_colon {text : Str} (h : ':' ∈ text) :
    ∃ front back, text = front ++ ':' :: back ∧ ':' ∉ front := by
  obtain ⟨front, back, htext, hfront⟩ := eq_append_cons_of_mem h
  exact ⟨front, back, htext, hfront⟩

theorem issuer_read_iff (hotp : Hotp) :
    (issuerOf (splitLabel (writtenLabel hotp)).1
          (if hotp.issuer.isEmpty then none else some hotp.issuer) =
        .ok hotp.issuer ∧
      (splitLabel (writtenLabel hotp)).2 = hotp.label) ↔ Separable hotp := by
  rw [writtenLabel, Separable]
  by_cases hempty : hotp.issuer = []
  · simp only [hempty, isEmpty_nil, ↓reduceIte, not_mem_nil,
      not_false_eq_true, true_and, forall_const]
    by_cases hcolon : ':' ∈ hotp.label
    · obtain ⟨front, back, hlabel, hfront⟩ := exists_colon hcolon
      rw [hlabel, splitLabel_append hfront]
      refine iff_of_false ?_ (fun hnot => hnot (by simp))
      rintro ⟨-, hsame⟩
      have hlength := congrArg List.length hsame
      rw [length_append, length_cons] at hlength
      change back.length = _ at hlength
      omega
    · rw [splitLabel, splitOnce_eq_none hcolon]
      exact iff_of_true ⟨rfl, rfl⟩ hcolon
  · have hfull : hotp.issuer.isEmpty = false :=
      isEmpty_eq_false_iff.mpr hempty
    simp only [hfull, Bool.false_eq_true, ↓reduceIte, hempty, false_implies,
      and_true]
    by_cases hcolon : ':' ∈ hotp.issuer
    · obtain ⟨front, back, hissuer, hfront⟩ := exists_colon hcolon
      have hne : front ≠ hotp.issuer := by
        rintro rfl
        exact hfront hcolon
      have hlabel : hotp.issuer ++ ':' :: hotp.label =
          front ++ ':' :: (back ++ ':' :: hotp.label) := by
        rw [hissuer, append_assoc, cons_append]
      rw [hlabel, splitLabel_append hfront]
      refine iff_of_false ?_ (fun hnot => hnot hcolon)
      rintro ⟨hread, -⟩
      rw [issuerOf, if_pos hne] at hread
      cases hread
    · rw [splitLabel_append hcolon]
      refine iff_of_true ⟨?_, rfl⟩ hcolon
      rw [issuerOf, if_neg (not_not_intro rfl)]

theorem writtenLabel_ne_nil (h : hotp.label ≠ []) : writtenLabel hotp ≠ [] := by
  rw [writtenLabel]
  split
  · exact h
  · exact append_ne_nil_of_right_ne_nil _ (cons_ne_nil _ _)

theorem lastParam_decimal {key : String} {value : Nat}
    (hname : (marks.all fun c => !key.toList.contains c) = true)
    (hfresh : key.toList ∉ ["secret".toList, "issuer".toList,
      "algorithm".toList, "digits".toList]) :
    LastParam key (decimal value) := by
  refine ⟨?_, fun _ hc => digit_not_mark hc value, hfresh⟩
  intro c hc hmem
  have hnot := all_eq_true.mp hname c hc
  rw [contains_iff_mem.mpr hmem] at hnot
  exact absurd hnot Bool.false_ne_true

theorem parseU64_decimal (n : UInt64) :
    parseU64 (decimal n.toNat) = some n := by
  rw [parseU64, parseUnsigned_decimal n.toNat_lt, Option.map_some,
    UInt64.ofNat_toNat]

theorem Hotp.fromUri_toUri_iff (h : hotp.label ≠ []) :
    Hotp.fromUri hotp.toUri = .ok hotp ↔ Separable hotp := by
  have hlast : LastParam "counter" (decimal hotp.counter.toNat) :=
    lastParam_decimal (by decide +kernel) (by decide +kernel)
  have hnumber : counterOf
      (writtenParams hotp ("counter".toList, decimal hotp.counter.toNat)) =
        .ok hotp.counter := by
    have hvalue := @valueOf_of_mem
      (writtenParams hotp ("counter".toList, decimal hotp.counter.toNat))
      "counter" (decimal hotp.counter.toNat) (keys_distinct hlast)
      (last_mem hotp _)
    rw [counterOf, hvalue]
    simp only [orError, ok_bind, parseU64_decimal]
  have hread := readUri_writeUri "otpauth://hotp/" hlast hnumber
    (writtenLabel_ne_nil h)
  have huri : hotp.toUri = writeUri "otpauth://hotp/" hotp
      ('&' :: writePair ("counter".toList, decimal hotp.counter.toNat)) := by
    simp [toUri, writePair]
  rw [← issuer_read_iff, Hotp.fromUri, huri, hread]
  cases hissuer : issuerOf (splitLabel (writtenLabel hotp)).1
      (if hotp.issuer.isEmpty then none else some hotp.issuer) with
  | error e => simp only [hissuer, bind, Except.bind, reduceCtorEq, false_and]
  | ok issuer =>
    simp only [hissuer, bind, Except.bind, pure, Except.pure, Except.ok.injEq]
    cases hotp
    simp only [Hotp.mk.injEq, true_and, and_true]

theorem Totp.fromUri_toUri_iff {totp : Totp} (h : totp.hotp.label ≠ []) :
    Totp.fromUri totp.toUri = .ok totp ↔ Separable totp.hotp := by
  have hlast : LastParam "period" (decimal totp.period.toNat) :=
    lastParam_decimal (by decide +kernel) (by decide +kernel)
  have hnumber : periodOf
      (writtenParams totp.hotp ("period".toList, decimal totp.period.toNat)) =
        .ok totp.period := by
    have hvalue := @valueOf_of_mem
      (writtenParams totp.hotp ("period".toList, decimal totp.period.toNat))
      "period" (decimal totp.period.toNat) (keys_distinct hlast)
      (last_mem totp.hotp _)
    rw [periodOf, hvalue]
    simp only [optional, orError, ok_bind, parseU64_decimal]
    rfl
  have hread := readUri_writeUri "otpauth://totp/" hlast hnumber
    (writtenLabel_ne_nil h)
  have huri : totp.toUri = writeUri "otpauth://totp/" totp.hotp
      ('&' :: writePair ("period".toList, decimal totp.period.toNat)) := by
    simp [toUri, writePair]
  rw [← issuer_read_iff, Totp.fromUri, huri, hread]
  cases hissuer : issuerOf (splitLabel (writtenLabel totp.hotp)).1
      (if totp.hotp.issuer.isEmpty then none else some totp.hotp.issuer) with
  | error e => simp only [hissuer, bind, Except.bind, reduceCtorEq, false_and]
  | ok issuer =>
    simp only [hissuer, bind, Except.bind, pure, Except.pure, Except.ok.injEq]
    obtain ⟨period, ⟨_, _, _, _, counter, _⟩, hunused⟩ := totp
    change counter = 0 at hunused
    subst hunused
    simp only [Totp.new, Totp.mk.injEq, Hotp.mk.injEq, true_and, and_true]

/-- A password comes back from its URI unless a colon is taken for the end of
the issuer.  Neither of the encodings is to blame. -/
theorem uri_round_trip_iff (hotp : Hotp) (totp : Totp) (h : hotp.label ≠ [])
    (h' : totp.hotp.label ≠ []) :
    (Hotp.fromUri hotp.toUri = .ok hotp ↔ Separable hotp) ∧
      (Totp.fromUri totp.toUri = .ok totp ↔ Separable totp.hotp) ∧
      (∀ data, Base32.decode (Base32.encode data) = .ok data) ∧
      ∀ text, Url.decode (Url.encode (utf8 text)) = .ok text :=
  ⟨Hotp.fromUri_toUri_iff h, Totp.fromUri_toUri_iff h', Base32.decode_encoded,
    Url.decode_encoded⟩

/-- An account of an issuer. -/
def accountOf (issuer label : String) : Hotp :=
  ⟨.sha1, issuer.toList, label.toList, 6, 0, [1, 2, 3]⟩

theorem uri_round_trip_account :
    Hotp.fromUri (accountOf "A" "b:c").toUri = .ok (accountOf "A" "b:c") ∧
      Totp.fromUri (Totp.mk 30 (accountOf "A" "b:c") rfl).toUri =
        .ok (Totp.mk 30 (accountOf "A" "b:c") rfl) := by
  have hlabel : (accountOf "A" "b:c").label ≠ [] := by decide +kernel
  have hiff := uri_round_trip_iff (accountOf "A" "b:c")
    (Totp.mk 30 (accountOf "A" "b:c") rfl) hlabel hlabel
  exact ⟨hiff.1.mpr (by decide +kernel), hiff.2.1.mpr (by decide +kernel)⟩

/-- Without an issuer, `b:c` comes back as the account `c` of `b`. -/
theorem colon_taken_for_issuer :
    Hotp.fromUri (accountOf "" "b:c").toUri ≠ .ok (accountOf "" "b:c") := by
  have hlabel : (accountOf "" "b:c").label ≠ [] := by decide +kernel
  rw [ne_eq, Hotp.fromUri_toUri_iff hlabel]
  decide +kernel

end NiceTerm.Otp
