/-
The ZMODEM header detector: a stream fed in chunks, of which a possible header
prefix is held back until the next chunk.
-/
import Mathlib.Data.List.Infix

namespace NiceTerm.Zmodem

open List

abbrev Bytes := List UInt8

def zpad : UInt8 := 0x2A
def zdle : UInt8 := 0x18
def zhex : UInt8 := 0x42
def zbin : UInt8 := 0x41
def zbin32 : UInt8 := 0x43
def zmodemHeaderLen : Nat := 4

inductive ZmodemDirection where
  | download
  | upload
deriving Repr, DecidableEq

/-- The held back bytes, and whether the first of them stands at the start of
a line. -/
structure ZmodemDetector where
  pending : Bytes := []
  pendingStartsAtLineStart : Bool := true
deriving Repr, DecidableEq

inductive ZmodemDetectResult where
  | noMatch (passthrough : Bytes)
  | detected (direction : ZmodemDirection) (passthrough initialBytes : Bytes)
deriving Repr, DecidableEq

def hexDigit (b : UInt8) : Option UInt8 :=
  if 0x30 ≤ b ∧ b ≤ 0x39 then some (b - 0x30)
  else if 0x61 ≤ b ∧ b ≤ 0x66 then some (b - 0x61 + 10)
  else if 0x41 ≤ b ∧ b ≤ 0x46 then some (b - 0x41 + 10)
  else none

def parseHexFrameType : Bytes → Option UInt8
  | hi :: lo :: _ =>
    match hexDigit hi, hexDigit lo with
    | some hi, some lo => some ((hi <<< 4) ||| lo)
    | _, _ => none
  | _ => none

def isFrameKind (kind : UInt8) : Bool :=
  kind == zhex || kind == zbin || kind == zbin32

def directionOf : Option UInt8 → Option ZmodemDirection
  | some 0 => some .download
  | some 1 => some .upload
  | _ => none

/-- The body of the loop of `detect_zmodem_start`: the direction of a header
that starts with the first byte. -/
def headerDirection : Bytes → Option ZmodemDirection
  | b₀ :: b₁ :: b₂ :: kind :: remaining =>
    if b₀ != zpad || b₁ != zpad || b₂ != zdle || !isFrameKind kind then none
    else
      directionOf (if kind == zhex then parseHexFrameType remaining
        else remaining.head?)
  | _ => none

/-- The loop of `detect_zmodem_start` from `start` on. -/
def detectFrom (start : Nat) : Bytes → Option (ZmodemDirection × Nat)
  | [] => none
  | b :: rest =>
    if (b :: rest).length < zmodemHeaderLen then none
    else
      match headerDirection (b :: rest) with
      | some direction => some (direction, start)
      | none => detectFrom (start + 1) rest

def detectZmodemStart (data : Bytes) : Option (ZmodemDirection × Nat) :=
  detectFrom 0 data

def isPossibleZmodemPrefix : Bytes → Bool
  | [] => true
  | [b₀] => b₀ == zpad
  | [b₀, b₁] => b₀ == zpad && b₁ == zpad
  | [b₀, b₁, b₂] => b₀ == zpad && b₁ == zpad && b₂ == zdle
  | [b₀, b₁, b₂, kind] =>
    b₀ == zpad && b₁ == zpad && b₂ == zdle && isFrameKind kind
  | [b₀, b₁, b₂, kind, firstHex] =>
    b₀ == zpad && b₁ == zpad && b₂ == zdle && kind == zhex &&
      (hexDigit firstHex).isSome
  | _ => false

def suffixContainsZdle (data : Bytes) : Bool :=
  data.contains zdle

def isNewline (b : UInt8) : Bool :=
  b == 0x0A || b == 0x0D

def endsAtLineStart (data : Bytes) : Bool :=
  data.getLast?.any isNewline

def isLineStart (data : Bytes) (start : Nat) (dataStartsAtLineStart : Bool) :
    Bool :=
  if start = 0 then dataStartsAtLineStart
  else data[start - 1]?.any isNewline

def rzReceivePrompt : Bytes :=
  [0x7A, 0x20, 0x77, 0x61, 0x69, 0x74, 0x69, 0x6E, 0x67, 0x20, 0x74, 0x6F,
    0x20, 0x72, 0x65, 0x63, 0x65, 0x69, 0x76, 0x65, 0x2E]

def hasRzReceivePromptBefore (data : Bytes) (start : Nat) : Bool :=
  (data.take start).tails.any rzReceivePrompt.isPrefixOf

/-- The test of `retained_prefix_start` at one suffix. -/
def retains (data : Bytes) (dataStartsAtLineStart : Bool) (start : Nat) :
    Bool :=
  isPossibleZmodemPrefix (data.drop start) &&
    (suffixContainsZdle (data.drop start) ||
      isLineStart data start dataStartsAtLineStart ||
      hasRzReceivePromptBefore data start)

/-- The loop of `retained_prefix_start`, the longest suffix first. -/
def retainedPrefixLoop (data : Bytes) (dataStartsAtLineStart : Bool) :
    Nat → Nat
  | 0 => data.length
  | len + 1 =>
    if retains data dataStartsAtLineStart (data.length - (len + 1)) then
      data.length - (len + 1)
    else retainedPrefixLoop data dataStartsAtLineStart len

def retainedPrefixStart (data : Bytes) (dataStartsAtLineStart : Bool) : Nat :=
  retainedPrefixLoop data dataStartsAtLineStart
    (min data.length (zmodemHeaderLen + 1))

def rzEchoPatterns : List Bytes :=
  [[0x72, 0x7A, 0x0D, 0x0A], [0x72, 0x7A, 0x0D], [0x72, 0x7A]]

def stripRzEcho (data : Bytes) : Bytes :=
  match rzEchoPatterns.find? (fun pattern => pattern.isSuffixOf data) with
  | some pattern => data.take (data.length - pattern.length)
  | none => data

def ZmodemDetector.reset (_ : ZmodemDetector) : ZmodemDetector := {}

def ZmodemDetector.feed (detector : ZmodemDetector) (data : Bytes) :
    ZmodemDetectResult × ZmodemDetector :=
  let pending := detector.pending ++ data
  match detectZmodemStart pending with
  | some (direction, headerStart) =>
    let passthrough := pending.take headerStart
    (.detected direction
      (if direction = .upload then stripRzEcho passthrough else passthrough)
      (pending.drop headerStart), detector.reset)
  | none =>
    let keepFrom := retainedPrefixStart pending
      detector.pendingStartsAtLineStart
    let passthrough := pending.take keepFrom
    (.noMatch passthrough,
      if 0 < keepFrom then
        { pending := pending.drop keepFrom
          pendingStartsAtLineStart := endsAtLineStart passthrough }
      else { detector with pending := pending })

/-- A stream is still being scanned, or a header has been found and the rest of
the chunks belong to the transfer. -/
inductive Outcome where
  | scanning (passthrough : Bytes) (detector : ZmodemDetector)
  | detected (direction : ZmodemDirection)
      (passthrough initialBytes : Bytes) (unread : List Bytes)
deriving Repr, DecidableEq

def Outcome.after (shown : Bytes) : Outcome → Outcome
  | .scanning passthrough detector => .scanning (shown ++ passthrough) detector
  | .detected direction passthrough initialBytes unread =>
    .detected direction (shown ++ passthrough) initialBytes unread

/-- The session loops feed chunk after chunk until a header is found. -/
def ZmodemDetector.feedAll (detector : ZmodemDetector) :
    List Bytes → Outcome
  | [] => .scanning [] detector
  | chunk :: rest =>
    match detector.feed chunk with
    | (.detected direction passthrough initialBytes, _) =>
      .detected direction passthrough initialBytes rest
    | (.noMatch passthrough, next) => (next.feedAll rest).after passthrough

/-- The header found in a stream of `total` bytes: its direction and the
position of its first byte. -/
def Outcome.header (total : Nat) : Outcome → Option (ZmodemDirection × Nat)
  | .scanning _ _ => none
  | .detected direction _ initialBytes unread =>
    some (direction, total - (initialBytes ++ unread.flatten).length)

/-! Headers and their prefixes.  A header takes five or six bytes, a proper prefix
of one contains no header, and the detector's two scans are specified by
positions in the data. -/

/-- The first header in the data. -/
structure FirstHeader (data : Bytes) (direction : ZmodemDirection)
    (position : Nat) : Prop where
  header : headerDirection (data.drop position) = some direction
  first : ∀ earlier < position, headerDirection (data.drop earlier) = none

variable {data : Bytes} {direction : ZmodemDirection}

section

variable (h : headerDirection data = some direction)
include h

theorem headerDirection_length : 5 ≤ data.length := by
  match data, h with
  | b₀ :: b₁ :: b₂ :: kind :: b₄ :: rest, _ => simp
  | [b₀, b₁, b₂, kind], h =>
    simp [headerDirection, parseHexFrameType, directionOf] at h
  | [_, _, _], h => cases h
  | [_, _], h => cases h
  | [_], h => cases h
  | [], h => cases h

theorem headerDirection_append
    (more : Bytes) : headerDirection (data ++ more) = some direction := by
  match data, headerDirection_length h with
  | b₀ :: b₁ :: b₂ :: kind :: b₄ :: b₅ :: rest, _ =>
    simpa [headerDirection, parseHexFrameType] using h
  | [b₀, b₁, b₂, kind, b₄], _ =>
    by_cases hkind : kind = zhex
    · simp [headerDirection, parseHexFrameType, directionOf, hkind] at h
    · simpa [headerDirection, hkind] using h

theorem headerDirection_shape :
    ∃ kind rest, data = zpad :: zpad :: zdle :: kind :: rest ∧ isFrameKind kind
      = true ∧ (kind = zhex → ∃ hi lo more, rest = hi :: lo :: more ∧
        (hexDigit hi).isSome = true) := by
  match data, headerDirection_length h with
  | b₀ :: b₁ :: b₂ :: kind :: rest, _ =>
    simp only [headerDirection] at h
    split at h
    · cases h
    · next hfront =>
      simp only [Bool.or_eq_true, bne_iff_ne, Bool.not_eq_true', not_or,
        not_not, Bool.not_eq_false] at hfront
      obtain ⟨⟨⟨rfl, rfl⟩, rfl⟩, hkind⟩ := hfront
      refine ⟨kind, rest, rfl, hkind, ?_⟩
      rintro rfl
      match rest, h with
      | hi :: lo :: more, h =>
        refine ⟨hi, lo, more, rfl, ?_⟩
        cases hhi : hexDigit hi with
        | none => simp [parseHexFrameType, hhi, directionOf] at h
        | some digit => rfl
      | [_], h => simp [parseHexFrameType, directionOf] at h
      | [], h => simp [parseHexFrameType, directionOf] at h

end

/-- Cut a stream that has a header at its front: either the header is already
complete, or what is there is a possible prefix. -/
theorem header_or_possible {more : Bytes}
    (h : headerDirection (data ++ more) = some direction) :
    headerDirection data = some direction ∨
      isPossibleZmodemPrefix data = true := by
  obtain ⟨kind, rest, hshape, hkind, hhex⟩ := headerDirection_shape h
  match data, h with
  | b₀ :: b₁ :: b₂ :: kind' :: b₄ :: b₅ :: rest', h =>
    exact .inl (by simpa [headerDirection, parseHexFrameType] using h)
  | [], _ => exact .inr rfl
  | [b₀], _ =>
    simp only [cons_append, cons.injEq] at hshape
    simp [isPossibleZmodemPrefix, hshape]
  | [b₀, b₁], _ =>
    simp only [cons_append, cons.injEq] at hshape
    simp [isPossibleZmodemPrefix, hshape]
  | [b₀, b₁, b₂], _ =>
    simp only [cons_append, cons.injEq] at hshape
    simp [isPossibleZmodemPrefix, hshape]
  | [b₀, b₁, b₂, kind'], _ =>
    simp only [cons_append, cons.injEq] at hshape
    simp [isPossibleZmodemPrefix, hshape, hkind]
  | [b₀, b₁, b₂, kind', b₄], h =>
    simp only [cons_append, cons.injEq, nil_append] at hshape
    obtain ⟨rfl, rfl, rfl, rfl, hrest⟩ := hshape
    by_cases hzhex : kind' = zhex
    · obtain ⟨hi, lo, more', hdigits, hhi⟩ := hhex hzhex
      simp only [hdigits, cons.injEq] at hrest
      exact .inr (by simp [isPossibleZmodemPrefix, hzhex, hrest, hhi])
    · exact .inl (by simpa [headerDirection, hzhex] using h)

theorem isPossibleZmodemPrefix_length
    (h : isPossibleZmodemPrefix data = true) : data.length ≤ 5 := by
  match data, h with
  | [], _ => simp
  | [_], _ => simp
  | [_, _], _ => simp
  | [_, _, _], _ => simp
  | [_, _, _, _], _ => simp
  | [_, _, _, _, _], _ => simp

/-- A byte that can stand in a header prefix. -/
def isHeaderByte (b : UInt8) : Bool :=
  b == zpad || b == zdle || isFrameKind b || (hexDigit b).isSome

section

variable (h : isPossibleZmodemPrefix data = true)
include h

theorem isHeaderByte_of_mem
    {b : UInt8} (hb : b ∈ data) : isHeaderByte b = true := by
  match data, h with
  | [b₀], h =>
    simp only [isPossibleZmodemPrefix, beq_iff_eq] at h
    simp_all [isHeaderByte]
  | [b₀, b₁], h =>
    simp only [isPossibleZmodemPrefix, Bool.and_eq_true, beq_iff_eq] at h
    simp only [mem_cons, not_mem_nil, or_false] at hb
    rcases hb with rfl | rfl <;> simp [isHeaderByte, h]
  | [b₀, b₁, b₂], h =>
    simp only [isPossibleZmodemPrefix, Bool.and_eq_true, beq_iff_eq] at h
    simp only [mem_cons, not_mem_nil, or_false] at hb
    rcases hb with rfl | rfl | rfl <;> simp [isHeaderByte, h]
  | [b₀, b₁, b₂, kind], h =>
    simp only [isPossibleZmodemPrefix, Bool.and_eq_true, beq_iff_eq] at h
    simp only [mem_cons, not_mem_nil, or_false] at hb
    rcases hb with rfl | rfl | rfl | rfl <;> simp [isHeaderByte, h]
  | [b₀, b₁, b₂, kind, firstHex], h =>
    simp only [isPossibleZmodemPrefix, Bool.and_eq_true, beq_iff_eq] at h
    simp only [mem_cons, not_mem_nil, or_false] at hb
    rcases hb with rfl | rfl | rfl | rfl | rfl <;>
      simp [isHeaderByte, isFrameKind, h]

theorem headerDirection_of_possible : headerDirection data = none := by
  cases hheader : headerDirection data with
  | none => rfl
  | some direction =>
    match data, h, headerDirection_length hheader with
    | [b₀, b₁, b₂, kind, firstHex], h, _ =>
      simp only [isPossibleZmodemPrefix, Bool.and_eq_true, beq_iff_eq] at h
      simp [headerDirection, parseHexFrameType, directionOf, h] at hheader

/-- No header lies inside a possible prefix. -/
theorem headerDirection_drop_of_possible (start : Nat) :
    headerDirection (data.drop start) = none := by
  cases start with
  | zero => exact headerDirection_of_possible h
  | succ start =>
    cases hheader : headerDirection (data.drop (start + 1)) with
    | none => rfl
    | some direction =>
      have hlong := headerDirection_length hheader
      have hshort := isPossibleZmodemPrefix_length h
      simp only [length_drop] at hlong
      omega

end

theorem headerDirection_drop_of_short (h : data.length < zmodemHeaderLen)
    (start : Nat) : headerDirection (data.drop start) = none := by
  cases hheader : headerDirection (data.drop start) with
  | none => rfl
  | some direction =>
    have hlong := headerDirection_length hheader
    simp only [length_drop, zmodemHeaderLen] at hlong h
    omega

theorem firstHeader_cons {b : UInt8} {rest : Bytes} {position : Nat} :
    FirstHeader (b :: rest) direction position ↔
      (position = 0 ∧ headerDirection (b :: rest) = some direction) ∨
        ∃ later, position = later + 1 ∧ headerDirection (b :: rest) = none ∧
          FirstHeader rest direction later := by
  constructor
  · intro h
    cases position with
    | zero => exact .inl ⟨rfl, h.header⟩
    | succ later =>
      refine .inr ⟨later, rfl, h.first 0 (Nat.succ_pos _), h.header, ?_⟩
      intro earlier hlt
      exact h.first (earlier + 1) (Nat.succ_lt_succ hlt)
  · rintro (⟨rfl, h⟩ | ⟨later, rfl, hfront, h⟩)
    · exact ⟨h, fun earlier hlt => absurd hlt (Nat.not_lt_zero _)⟩
    · refine ⟨h.header, fun earlier hlt => ?_⟩
      cases earlier with
      | zero => exact hfront
      | succ earlier => exact h.first earlier (Nat.lt_of_succ_lt_succ hlt)

/-- `detect_zmodem_start` finds the first header. -/
theorem detectFrom_eq_some {start position : Nat} :
    detectFrom start data = some (direction, position) ↔
      ∃ offset, position = start + offset ∧
        FirstHeader data direction offset := by
  induction data generalizing start with
  | nil =>
    constructor
    · intro h
      cases h
    · rintro ⟨offset, -, h⟩
      simpa [headerDirection] using h.header
  | cons b rest ih =>
    rw [detectFrom]
    split
    · next hshort =>
      constructor
      · intro h
        cases h
      · rintro ⟨offset, -, h⟩
        have hheader := h.header
        rw [headerDirection_drop_of_short hshort] at hheader
        cases hheader
    · split
      · next found hfound =>
        constructor
        · intro h
          simp only [Option.some.injEq, Prod.mk.injEq] at h
          obtain ⟨rfl, rfl⟩ := h
          exact ⟨0, rfl, firstHeader_cons.mpr (.inl ⟨rfl, hfound⟩)⟩
        · rintro ⟨offset, rfl, h⟩
          rcases firstHeader_cons.mp h with
            ⟨rfl, hheader⟩ | ⟨later, rfl, hheader, -⟩
          · simp [Option.some.inj (hfound.symm.trans hheader)]
          · simp [hfound] at hheader
      · next hfront =>
        rw [ih]
        constructor
        · rintro ⟨later, rfl, h⟩
          exact ⟨later + 1, by omega,
            firstHeader_cons.mpr (.inr ⟨later, rfl, hfront, h⟩)⟩
        · rintro ⟨offset, rfl, h⟩
          rcases firstHeader_cons.mp h with
            ⟨rfl, hheader⟩ | ⟨later, rfl, -, hlater⟩
          · simp [hfront] at hheader
          · exact ⟨later, by omega, hlater⟩

theorem detectZmodemStart_eq_some {position : Nat} :
    detectZmodemStart data = some (direction, position) ↔
      FirstHeader data direction position := by
  simp [detectZmodemStart, detectFrom_eq_some]

/-- Every header has a first one before or at it. -/
theorem exists_firstHeader {position : Nat}
    (h : headerDirection (data.drop position) = some direction) :
    ∃ first direction', FirstHeader data direction' first := by
  induction data generalizing position with
  | nil => simp [headerDirection] at h
  | cons b rest ih =>
    cases hfront : headerDirection (b :: rest) with
    | some found =>
      exact ⟨0, found, firstHeader_cons.mpr (.inl ⟨rfl, hfront⟩)⟩
    | none =>
      cases position with
      | zero => simp [hfront] at h
      | succ position =>
        obtain ⟨first, found, hfirst⟩ := ih h
        exact ⟨first + 1, found,
          firstHeader_cons.mpr (.inr ⟨first, rfl, hfront, hfirst⟩)⟩

theorem detectZmodemStart_eq_none :
    detectZmodemStart data = none ↔
      ∀ position, headerDirection (data.drop position) = none := by
  constructor
  · intro h position
    cases hheader : headerDirection (data.drop position) with
    | none => rfl
    | some direction =>
      obtain ⟨first, found, hfirst⟩ := exists_firstHeader hheader
      simp [detectZmodemStart_eq_some.mpr hfirst] at h
  · intro h
    cases hdetect : detectZmodemStart data with
    | none => rfl
    | some found =>
      have hfirst := detectZmodemStart_eq_some.mp hdetect
      exact absurd hfirst.header (by simp [h])

/-- `retained_prefix_start` keeps the longest suffix that passes its test. -/
theorem retainedPrefixLoop_spec (data : Bytes) (flag : Bool) (bound : Nat) :
    retainedPrefixLoop data flag bound = data.length ∨
      retains data flag (retainedPrefixLoop data flag bound) = true := by
  induction bound with
  | zero => exact .inl rfl
  | succ bound ih =>
    rw [retainedPrefixLoop]
    split
    · next h => exact .inr h
    · exact ih

theorem retainedPrefixLoop_le_length (data : Bytes) (flag : Bool)
    (bound : Nat) : retainedPrefixLoop data flag bound ≤ data.length := by
  induction bound with
  | zero => exact Nat.le_refl _
  | succ bound ih =>
    rw [retainedPrefixLoop]
    split
    · exact Nat.sub_le _ _
    · exact ih

theorem retainedPrefixLoop_le {flag : Bool} {bound start : Nat}
    (hbound : data.length ≤ start + bound) (hstart : start < data.length)
    (h : retains data flag start = true) :
    retainedPrefixLoop data flag bound ≤ start := by
  induction bound with
  | zero => omega
  | succ bound ih =>
    rw [retainedPrefixLoop]
    split
    · omega
    · next hlonger =>
      apply ih
      by_contra hshort
      have heq : data.length - (bound + 1) = start := by omega
      exact hlonger (heq ▸ h)

theorem retainedPrefixStart_le_length (data : Bytes) (flag : Bool) :
    retainedPrefixStart data flag ≤ data.length :=
  retainedPrefixLoop_le_length data flag _

theorem retainedPrefixStart_retains {flag : Bool}
    (h : retainedPrefixStart data flag < data.length) :
    retains data flag (retainedPrefixStart data flag) = true :=
  (retainedPrefixLoop_spec data flag _).resolve_left (Nat.ne_of_lt h)

theorem retainedPrefixStart_le {flag : Bool} {start : Nat}
    (hstart : start < data.length) (h : retains data flag start = true) :
    retainedPrefixStart data flag ≤ start := by
  refine retainedPrefixLoop_le ?_ hstart h
  simp only [retains, Bool.and_eq_true] at h
  have hlength := isPossibleZmodemPrefix_length h.1
  simp only [length_drop] at hlength
  simp only [zmodemHeaderLen]
  omega

/-- What is held back is always a possible prefix. -/
theorem possible_drop_retainedPrefixStart (data : Bytes) (flag : Bool) :
    isPossibleZmodemPrefix
      (data.drop (retainedPrefixStart data flag)) = true := by
  rcases Nat.lt_or_ge (retainedPrefixStart data flag) data.length with h | h
  · have hretains := retainedPrefixStart_retains h
    simp only [retains, Bool.and_eq_true] at hretains
    exact hretains.1
  · rw [drop_eq_nil_of_le h]
    rfl

end NiceTerm.Zmodem
