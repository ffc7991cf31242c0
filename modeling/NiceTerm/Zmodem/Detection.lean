/-
A stream split into chunks.  The detector's state after a prefix of the stream
is a position: everything before it has been passed through.
-/
import NiceTerm.Zmodem.Detector

namespace NiceTerm.Zmodem

open List ZmodemDetector

variable (stream : Bytes)

/-- The byte at `position` starts a line of the stream. -/
def atLineStart (position : Nat) : Prop :=
  isLineStart stream position true = true

/-- The bytes before `position` end with the receive prompt. -/
def AfterPrompt (position : Nat) : Prop :=
  rzReceivePrompt <:+ stream.take position

/-- The detector has read `stream` and holds back what lies after `offset`. -/
structure Holding (stream : Bytes) (offset : Nat)
    (detector : ZmodemDetector) : Prop where
  pending : detector.pending = stream.drop offset
  inside : offset ≤ stream.length
  lineStart : detector.pendingStartsAtLineStart = isLineStart stream offset true
  possible : isPossibleZmodemPrefix detector.pending = true

theorem holding_initial : Holding [] 0 {} where
  pending := rfl
  inside := Nat.le_refl 0
  lineStart := rfl
  possible := rfl

/-- The suffix from `position` passes the test of `retained_prefix_start` when
the bytes from `offset` on are looked at. -/
structure Retained (stream : Bytes) (offset position : Nat) : Prop where
  possible : isPossibleZmodemPrefix (stream.drop position) = true
  context : zdle ∈ stream.drop position ∨ atLineStart stream position ∨
    rzReceivePrompt <:+: (stream.drop offset).take (position - offset)

theorem isLineStart_append {stream more : Bytes} {position : Nat}
    (h : position ≤ stream.length) :
    isLineStart (stream ++ more) position true =
      isLineStart stream position true := by
  cases position with
  | zero => rfl
  | succ position =>
    simp [isLineStart, getElem?_append_left h]

theorem isLineStart_drop (offset start : Nat) :
    isLineStart (stream.drop offset) start (isLineStart stream offset true) =
      isLineStart stream (offset + start) true := by
  cases start with
  | zero => rfl
  | succ start => simp [isLineStart, getElem?_drop]

theorem endsAtLineStart_take {data : Bytes} {length : Nat}
    (hpos : 0 < length) (hle : length ≤ data.length) (flag : Bool) :
    endsAtLineStart (data.take length) = isLineStart data length flag := by
  have hlast : (data.take length).getLast? = data[length - 1]? := by
    rw [getLast?_eq_getElem?, length_take, Nat.min_eq_left hle,
      getElem?_take_of_lt (by omega)]
  simp [endsAtLineStart, isLineStart, hlast, Nat.ne_of_gt hpos]

theorem hasRzReceivePromptBefore_iff {data : Bytes} {start : Nat} :
    hasRzReceivePromptBefore data start = true ↔
      rzReceivePrompt <:+: data.take start := by
  simp only [hasRzReceivePromptBefore, any_eq_true, mem_tails,
    isPrefixOf_iff_prefix]
  constructor
  · rintro ⟨tail, hsuffix, hfront⟩
    exact hfront.isInfix.trans hsuffix.isInfix
  · rintro ⟨front, back, h⟩
    exact ⟨rzReceivePrompt ++ back, ⟨front, by simpa using h⟩,
      prefix_append _ _⟩

theorem retains_iff (offset start : Nat) :
    retains (stream.drop offset) (isLineStart stream offset true) start =
        true ↔ Retained stream offset (offset + start) := by
  rw [retains, isLineStart_drop, drop_drop]
  simp only [Bool.and_eq_true, Bool.or_eq_true, hasRzReceivePromptBefore_iff,
    suffixContainsZdle, contains_iff_mem, or_assoc]
  constructor
  · rintro ⟨hpossible, hcontext⟩
    exact ⟨hpossible, by simpa [atLineStart] using hcontext⟩
  · rintro ⟨hpossible, hcontext⟩
    exact ⟨hpossible, by simpa [atLineStart] using hcontext⟩

section Feed

variable {stream chunk : Bytes} {offset : Nat} {detector : ZmodemDetector}

theorem Holding.pending_append (h : Holding stream offset detector) :
    detector.pending ++ chunk = (stream ++ chunk).drop offset := by
  rw [h.pending, drop_append_of_le_length h.inside]

theorem Holding.feed_noMatch (h : Holding stream offset detector)
    (hnone : ∀ position, offset ≤ position →
      headerDirection ((stream ++ chunk).drop position) = none) :
    ∃ kept passthrough next,
      detector.feed chunk = (.noMatch passthrough, next) ∧
        Holding (stream ++ chunk) kept next ∧ offset ≤ kept ∧
        (kept < (stream ++ chunk).length →
          Retained (stream ++ chunk) offset kept) ∧
        ∀ position, offset ≤ position → position < (stream ++ chunk).length →
          Retained (stream ++ chunk) offset position → kept ≤ position := by
  let data := (stream ++ chunk).drop offset
  let keepFrom := retainedPrefixStart data
    (isLineStart (stream ++ chunk) offset true)
  have hflag : detector.pendingStartsAtLineStart =
      isLineStart (stream ++ chunk) offset true := by
    rw [h.lineStart, isLineStart_append h.inside]
  have hdetect :
      detectZmodemStart ((stream ++ chunk).drop offset) = none := by
    refine detectZmodemStart_eq_none.mpr fun position => ?_
    rw [drop_drop]
    exact hnone _ (Nat.le_add_right _ _)
  have hinside : offset ≤ (stream ++ chunk).length :=
    h.inside.trans (by simp)
  have hlength : data.length = (stream ++ chunk).length - offset :=
    length_drop
  have hkeep : keepFrom ≤ data.length := retainedPrefixStart_le_length _ _
  refine ⟨offset + keepFrom, data.take keepFrom,
    if 0 < keepFrom then
      { pending := data.drop keepFrom
        pendingStartsAtLineStart := endsAtLineStart (data.take keepFrom) }
    else { detector with pending := data }, ?_, ?_, Nat.le_add_right _ _,
    ?_, ?_⟩
  · simp only [feed, h.pending_append, hflag, hdetect]
    rfl
  · have hpossible : isPossibleZmodemPrefix (data.drop keepFrom) = true :=
      possible_drop_retainedPrefixStart data _
    rcases Nat.eq_zero_or_pos keepFrom with hzero | hpos
    · simp only [hzero, drop_zero] at hpossible
      simp only [hzero, Nat.lt_irrefl, ↓reduceIte, Nat.add_zero]
      exact ⟨rfl, hinside, hflag, hpossible⟩
    · simp only [hpos, ↓reduceIte]
      refine ⟨by simp [data, drop_drop], by omega, ?_, hpossible⟩
      rw [endsAtLineStart_take hpos hkeep, isLineStart_drop]
  · intro hlt
    rw [← retains_iff]
    have hkept : keepFrom < data.length := by omega
    exact retainedPrefixStart_retains hkept
  · intro position hle hlt hretained
    obtain ⟨start, rfl⟩ := Nat.exists_eq_add_of_le hle
    refine Nat.add_le_add_left (retainedPrefixStart_le (by omega) ?_) _
    exact (retains_iff _ _ _).mpr hretained

theorem Holding.feed_detected (h : Holding stream offset detector)
    {direction : ZmodemDirection} {position : Nat} (hle : offset ≤ position)
    (hheader : headerDirection ((stream ++ chunk).drop position) =
      some direction)
    (hfirst : ∀ earlier < position, offset ≤ earlier →
      headerDirection ((stream ++ chunk).drop earlier) = none) :
    ∃ passthrough next, detector.feed chunk =
      (.detected direction passthrough ((stream ++ chunk).drop position),
        next) := by
  obtain ⟨start, rfl⟩ := Nat.exists_eq_add_of_le hle
  have hdetect : detectZmodemStart ((stream ++ chunk).drop offset) =
      some (direction, start) := by
    refine detectZmodemStart_eq_some.mpr ⟨by rwa [drop_drop], ?_⟩
    intro earlier hlt
    rw [drop_drop]
    exact hfirst _ (by omega) (Nat.le_add_right _ _)
  simp only [feed, h.pending_append, hdetect, drop_drop]
  exact ⟨_, _, rfl⟩

end Feed

/-- The header found by the detector when it goes on reading. -/
def found (read : Bytes) (detector : ZmodemDetector) (chunks : List Bytes) :
    Option (ZmodemDirection × Nat) :=
  (detector.feedAll chunks).header (read ++ chunks.flatten).length

theorem header_after (total : Nat) (shown : Bytes) (outcome : Outcome) :
    (outcome.after shown).header total = outcome.header total := by
  cases outcome <;> rfl

theorem found_of_noMatch {read chunk passthrough : Bytes}
    {rest : List Bytes} {detector next : ZmodemDetector}
    (h : detector.feed chunk = (.noMatch passthrough, next)) :
    found read detector (chunk :: rest) = found (read ++ chunk) next rest := by
  simp [found, feedAll, h, header_after]

variable {direction : ZmodemDirection}

theorem found_of_detected {read chunk passthrough : Bytes}
    {rest : List Bytes} {detector next : ZmodemDetector}
    {position : Nat}
    (hle : position ≤ (read ++ chunk).length)
    (h : detector.feed chunk =
      (.detected direction passthrough ((read ++ chunk).drop position), next)) :
    found read detector (chunk :: rest) = some (direction, position) := by
  simp only [length_append] at hle
  simp only [found, feedAll, h, Outcome.header, length_append,
    length_drop, flatten_cons, Option.some.injEq, Prod.mk.injEq, true_and]
  omega

/-- A header is complete, or it is not and nothing after it is. -/
theorem header_split {read more : Bytes}
    {position : Nat} (hle : position ≤ read.length)
    (h : headerDirection ((read ++ more).drop position) = some direction) :
    headerDirection (read.drop position) = some direction ∨
      isPossibleZmodemPrefix (read.drop position) = true ∧
        ∀ later, position ≤ later →
          headerDirection (read.drop later) = none := by
  rw [drop_append_of_le_length hle] at h
  refine (header_or_possible h).imp_right fun hpossible => ⟨hpossible, ?_⟩
  intro later hlater
  have hdrop := headerDirection_drop_of_possible hpossible (later - position)
  rwa [drop_drop, Nat.add_sub_cancel' hlater] at hdrop

theorem headerDirection_drop_append {read more : Bytes} {position : Nat}
    (h : headerDirection (read.drop position) = some direction) :
    headerDirection ((read ++ more).drop position) = some direction := by
  have hlong := headerDirection_length h
  simp only [length_drop] at hlong
  rw [drop_append_of_le_length (by omega)]
  exact headerDirection_append h more

section Feeding

variable {read chunk : Bytes} {offset position : Nat}
  {detector : ZmodemDetector} {direction : ZmodemDirection}

/-- Feed a chunk while no header before `position` exists: the chunk completes
the header at `position`, or no header at all. -/
theorem Holding.feed_cases (h : Holding read offset detector) {more : Bytes}
    (hfirst : FirstHeader (read ++ chunk ++ more) direction position)
    (hle : offset ≤ position) :
    (position + 5 ≤ (read ++ chunk).length ∧ ∀ rest,
      found read detector (chunk :: rest) = some (direction, position)) ∨
    ((position ≤ (read ++ chunk).length →
        isPossibleZmodemPrefix ((read ++ chunk).drop position) = true) ∧
      ∀ later, offset ≤ later →
        headerDirection ((read ++ chunk).drop later) = none) := by
  have hbefore : ∀ earlier < position,
      headerDirection ((read ++ chunk).drop earlier) = none := by
    intro earlier hlt
    cases hheader : headerDirection ((read ++ chunk).drop earlier) with
    | none => rfl
    | some other =>
      have hnone := hfirst.first earlier hlt
      rw [headerDirection_drop_append hheader] at hnone
      cases hnone
  rcases Nat.lt_or_ge (read ++ chunk).length position with hlt | hge
  · refine .inr ⟨fun hle => absurd hle (Nat.not_le_of_lt hlt), ?_⟩
    intro later _
    rcases Nat.lt_or_ge later position with hearlier | hlater
    · exact hbefore later hearlier
    · rw [drop_eq_nil_of_le (Nat.le_of_lt (Nat.lt_of_lt_of_le hlt hlater))]
      rfl
  · rcases header_split hge hfirst.header with hcomplete | ⟨hpossible, hafter⟩
    · have hlong := headerDirection_length hcomplete
      simp only [length_drop] at hlong
      refine .inl ⟨by omega, fun rest => ?_⟩
      obtain ⟨passthrough, next, hfeed⟩ :=
        h.feed_detected hle hcomplete fun earlier hlt _ => hbefore earlier hlt
      exact found_of_detected hge hfeed
    · refine .inr ⟨fun _ => hpossible, fun later _ => ?_⟩
      rcases Nat.lt_or_ge later position with hearlier | hlater
      · exact hbefore later hearlier
      · exact hafter later hlater

/-- What is found is a header of the stream, and it was not passed through
before. -/
theorem Holding.found_sound {chunks : List Bytes}
    (h : Holding read offset detector)
    (hfound : found read detector chunks = some (direction, position)) :
    offset ≤ position ∧
      headerDirection ((read ++ chunks.flatten).drop position) =
        some direction := by
  induction chunks generalizing read offset detector with
  | nil => cases hfound
  | cons chunk rest ih =>
    cases hdetect : detectZmodemStart ((read ++ chunk).drop offset) with
    | none =>
      have hnone := detectZmodemStart_eq_none.mp hdetect
      have hrest : ∀ later, offset ≤ later →
          headerDirection ((read ++ chunk).drop later) = none := by
        intro later hle
        have hlater := hnone (later - offset)
        rwa [drop_drop, Nat.add_sub_cancel' hle] at hlater
      obtain ⟨kept, passthrough, next, hfeed, hnext, hkept, -, -⟩ :=
        h.feed_noMatch hrest
      rw [found_of_noMatch hfeed] at hfound
      obtain ⟨hle, hheader⟩ := ih hnext hfound
      exact ⟨hkept.trans hle, by simpa using hheader⟩
    | some hit =>
      have hfirst := detectZmodemStart_eq_some.mp hdetect
      have hheader := hfirst.header
      rw [drop_drop] at hheader
      have hlong := headerDirection_length hheader
      simp only [length_drop] at hlong
      have hbefore : ∀ earlier < offset + hit.2, offset ≤ earlier →
          headerDirection ((read ++ chunk).drop earlier) = none := by
        intro earlier hlt hle
        have hearlier := hfirst.first (earlier - offset) (by omega)
        rwa [drop_drop, Nat.add_sub_cancel' hle] at hearlier
      obtain ⟨passthrough, next, hfeed⟩ :=
        h.feed_detected (Nat.le_add_right _ _) hheader hbefore
      rw [found_of_detected (by omega) hfeed] at hfound
      simp only [Option.some.injEq, Prod.mk.injEq] at hfound
      obtain ⟨rfl, rfl⟩ := hfound
      refine ⟨Nat.le_add_right _ _, ?_⟩
      rw [flatten_cons, ← append_assoc]
      exact headerDirection_drop_append hheader

/-- A header at the start of a line is found however the stream is split. -/
theorem Holding.found_lineStart {chunks : List Bytes}
    (h : Holding read offset detector) (hle : offset ≤ position)
    (hfirst : FirstHeader (read ++ chunks.flatten) direction position)
    (hline : atLineStart (read ++ chunks.flatten) position) :
    found read detector chunks = some (direction, position) := by
  induction chunks generalizing read offset detector with
  | nil =>
    have hheader := hfirst.header
    simp only [flatten_nil, append_nil] at hheader
    have hnone := headerDirection_drop_of_possible h.possible
      (position - offset)
    rw [h.pending, drop_drop, Nat.add_sub_cancel' hle, hheader] at hnone
    cases hnone
  | cons chunk rest ih =>
    simp only [flatten_cons, ← append_assoc] at hfirst hline
    rcases h.feed_cases hfirst hle with ⟨-, hfound⟩ | ⟨hpossible, hnone⟩
    · exact hfound rest
    · obtain ⟨kept, passthrough, next, hfeed, hnext, -, -, hkept⟩ :=
        h.feed_noMatch hnone
      rw [found_of_noMatch hfeed]
      refine ih hnext ?_ hfirst hline
      rcases Nat.lt_or_ge position (read ++ chunk).length with hlt | hge
      · refine hkept position hle hlt ⟨hpossible (Nat.le_of_lt hlt), ?_⟩
        rw [atLineStart, isLineStart_append (Nat.le_of_lt hlt)] at hline
        exact .inr (.inl hline)
      · exact hnext.inside.trans hge

end Feeding

end NiceTerm.Zmodem
