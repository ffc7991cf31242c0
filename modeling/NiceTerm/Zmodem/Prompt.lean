/-
The detector against every split of a stream.  Of a header right after the
receive prompt, the first two bytes are held back only while the prompt is in
sight, and a split between them and the third can lose it.
-/
import NiceTerm.Zmodem.Detection

namespace NiceTerm.Zmodem

open List ZmodemDetector

variable {data : Bytes}

theorem zdle_mem_of_possible (h : isPossibleZmodemPrefix data = true) :
    zdle ∈ data ↔ 3 ≤ data.length := by
  match data, h with
  | [], _ => simp
  | [b₀], h =>
    simp only [isPossibleZmodemPrefix, beq_iff_eq] at h
    simp [h, zdle, zpad]
  | [b₀, b₁], h =>
    simp only [isPossibleZmodemPrefix, Bool.and_eq_true, beq_iff_eq] at h
    simp [h, zdle, zpad]
  | [b₀, b₁, b₂], h =>
    simp only [isPossibleZmodemPrefix, Bool.and_eq_true, beq_iff_eq] at h
    simp [h]
  | [b₀, b₁, b₂, kind], h =>
    simp only [isPossibleZmodemPrefix, Bool.and_eq_true, beq_iff_eq] at h
    simp [h]
  | [b₀, b₁, b₂, kind, firstHex], h =>
    simp only [isPossibleZmodemPrefix, Bool.and_eq_true, beq_iff_eq] at h
    simp [h]

theorem head_of_possible {b : UInt8} (h : isPossibleZmodemPrefix data = true)
    (hb : data[0]? = some b) : b = zpad := by
  match data, h with
  | [b₀], h => simp_all [isPossibleZmodemPrefix]
  | [b₀, b₁], h => simp_all [isPossibleZmodemPrefix]
  | [b₀, b₁, b₂], h => simp_all [isPossibleZmodemPrefix]
  | [b₀, b₁, b₂, kind], h => simp_all [isPossibleZmodemPrefix]
  | [b₀, b₁, b₂, kind, firstHex], h => simp_all [isPossibleZmodemPrefix]

variable {start : Nat}

theorem mem_drop_of_getElem? {index : Nat} {b : UInt8}
    (h : data[index]? = some b) (hle : start ≤ index) :
    b ∈ data.drop start := by
  refine mem_of_getElem? (i := index - start) ?_
  rw [getElem?_drop, Nat.add_sub_cancel' hle, h]

/-- The prompt begins with a `z` and ends with a full stop, and neither is a
header byte. -/
theorem AfterPrompt.ends {stream : Bytes} {position : Nat}
    (h : AfterPrompt stream position) (hle : position ≤ stream.length) :
    21 ≤ position ∧ stream[position - 21]? = some 0x7A ∧
      stream[position - 1]? = some 0x2E := by
  obtain ⟨front, hfront⟩ := h
  have hlength := congrArg List.length hfront
  simp only [length_append, length_take, Nat.min_eq_left hle]
    at hlength
  have hprompt : rzReceivePrompt.length = 21 := rfl
  have hget : ∀ index < 21, stream[position - 21 + index]? =
      rzReceivePrompt[index]? := by
    intro index hlt
    rw [← getElem?_take_of_lt (j := position) (by omega), ← hfront,
      getElem?_append_right (by omega)]
    congr 1
    omega
  refine ⟨by omega, hget 0 (by omega), ?_⟩
  have hlast := hget 20 (by omega)
  rwa [show position - 21 + 20 = position - 1 by omega] at hlast

/-- Spans of the stream the chunks cover, from `start` on. -/
def spans (start : Nat) : List Bytes → List (Nat × Nat)
  | [] => []
  | chunk :: rest =>
    (start, start + chunk.length) :: spans (start + chunk.length) rest

/-- The chunks that end behind the first or the second byte of a header. -/
def gapSpans (position start : Nat) (chunks : List Bytes) : List (Nat × Nat) :=
  (spans start chunks).filter
    fun span => position < span.2 && span.2 < position + 3

/-- At most one chunk ends inside the two padding bytes, and that chunk
contains the whole prompt. -/
def PromptInSight (position start : Nat) (chunks : List Bytes) : Prop :=
  ∀ span ∈ (gapSpans position start chunks).head?,
    gapSpans position start chunks = [span] ∧
      span.1 + rzReceivePrompt.length ≤ position

theorem gapSpans_eq_nil {position : Nat} {chunks : List Bytes}
    (h : position + 3 ≤ start) : gapSpans position start chunks = [] := by
  induction chunks generalizing start with
  | nil => rfl
  | cons chunk rest ih =>
    have hrest := @ih (start + chunk.length) (by omega)
    simp only [gapSpans, spans, filter_cons] at hrest ⊢
    rw [hrest, if_neg (by simp; omega)]

variable {rest : List Bytes}

theorem gapSpans_cons_of_outside {position : Nat} {chunk : Bytes}
    (h : start + chunk.length ≤ position ∨
      position + 3 ≤ start + chunk.length) :
    gapSpans position start (chunk :: rest) =
      gapSpans position (start + chunk.length) rest := by
  simp only [gapSpans, spans, filter_cons]
  rw [if_neg (by simp; omega)]

section

variable {position : Nat} {chunk : Bytes}
    (hlt : position < start + chunk.length)
    (h : start + chunk.length < position + 3)
include hlt h

theorem gapSpans_cons_of_inside :
    gapSpans position start (chunk :: rest) = (start, start + chunk.length) ::
        gapSpans position (start + chunk.length) rest := by
  simp only [gapSpans, spans, filter_cons]
  rw [if_pos (by simp; omega)]

theorem promptInSight_cons_of_inside :
    PromptInSight position start (chunk :: rest) ↔ start + 21 ≤ position ∧
        gapSpans position (start + chunk.length) rest = [] := by
  rw [PromptInSight, gapSpans_cons_of_inside hlt h]
  simp [rzReceivePrompt, and_comm]

end

section Prompt

variable {read chunk : Bytes} {offset position : Nat}
  {detector : ZmodemDetector} {direction : ZmodemDirection}

theorem AfterPrompt.of_append {more : Bytes}
    (h : AfterPrompt (read ++ more) position) (hle : position ≤ read.length) :
    AfterPrompt read position := by
  rwa [AfterPrompt, take_append_of_le_length hle] at h

/-- Nothing before the header is held back together with it. -/
theorem offset_le_of_afterPrompt (h : AfterPrompt read position)
    (hle : position ≤ read.length)
    (hpossible : isPossibleZmodemPrefix (read.drop offset) = true) :
    position ≤ offset := by
  obtain ⟨hlong, -, hstop⟩ := h.ends hle
  by_contra hlt
  have hmem : _ ∈ read.drop offset := mem_drop_of_getElem? hstop (by omega)
  exact absurd (isHeaderByte_of_mem hpossible hmem) (by decide)

section

variable (h : AfterPrompt read position) (hlt : position < read.length)
    (hshort : read.length < position + 3) (hle : offset ≤ position)
include h hlt hshort hle

/-- With one or two bytes of the header read, they are held back exactly when
the prompt is looked at together with them. -/
theorem retained_gap_iff
    (hpossible : isPossibleZmodemPrefix (read.drop position) = true) :
    Retained read offset position ↔ offset + 21 ≤ position := by
  obtain ⟨hlong, -, hstop⟩ := h.ends (Nat.le_of_lt hlt)
  constructor
  · intro hretained
    rcases hretained.context with hzdle | hline | hprompt
    · rw [zdle_mem_of_possible hpossible, length_drop] at hzdle
      omega
    · simp [atLineStart, isLineStart, show position ≠ 0 by omega, hstop,
        isNewline] at hline
    · have hlength := hprompt.length_le
      simp only [rzReceivePrompt, length_cons, length_nil,
        length_take, length_drop] at hlength
      omega
  · intro hsight
    refine ⟨hpossible, .inr (.inr ?_)⟩
    obtain ⟨front, hfront⟩ := h
    have hlength := congrArg List.length hfront
    simp only [rzReceivePrompt, length_append, length_take,
      length_cons, length_nil] at hlength
    rw [← drop_take, ← hfront, drop_append_of_le_length (by omega)]
    exact ⟨front.drop offset, [], by simp⟩

/-- With one or two bytes of the header read, nothing else is held back. -/
theorem kept_gap {kept : Nat}
    (hpossible : isPossibleZmodemPrefix (read.drop position) = true)
    (hretained : Retained read offset kept) (hkept : kept < read.length) :
    offset + 21 ≤ position := by
  have hposition := offset_le_of_afterPrompt h (Nat.le_of_lt hlt)
    hretained.possible
  rcases Nat.eq_or_lt_of_le hposition with rfl | hbehind
  · exact (retained_gap_iff h hlt hshort hle hpossible).mp hretained
  have hpad : read[position]? = some zpad := by
    have hget : (read.drop position)[0]? = some read[position] := by simp [hlt]
    rw [getElem?_eq_getElem hlt, head_of_possible hpossible hget]
  obtain rfl : kept = position + 1 := by omega
  rcases hretained.context with hzdle | hline | hprompt
  · rw [zdle_mem_of_possible hretained.possible, length_drop] at hzdle
    omega
  · simp [atLineStart, isLineStart, hpad, isNewline, zpad] at hline
  · obtain ⟨front, back, hsplit⟩ := hprompt
    have hlength := congrArg List.length hsplit
    have hprompt : rzReceivePrompt.length = 21 := rfl
    simp only [length_append, length_take, length_drop]
      at hlength
    -- the window would have to end with the first padding byte
    by_contra hsight
    have hfront : front = [] := length_eq_zero_iff.mp (by omega)
    have hback : back = [] := length_eq_zero_iff.mp (by omega)
    have hlast := congrArg (·[20]?) hsplit
    simp only [hfront, hback, nil_append, append_nil] at hlast
    rw [getElem?_take_of_lt (by omega), getElem?_drop,
      show offset + 20 = position by omega, hpad] at hlast
    exact absurd hlast (by decide)

end

/-- The prompt is in the chunk, or it is out of sight: what was held back
before the chunk contains no part of it. -/
theorem sight_iff (h : AfterPrompt (read ++ chunk) position)
    (hlt : position < (read ++ chunk).length) (hread : read.length ≤ position)
    (hholding : Holding read offset detector) :
    offset + 21 ≤ position ↔ read.length + 21 ≤ position := by
  obtain ⟨hlong, hstart, -⟩ := h.ends (Nat.le_of_lt hlt)
  constructor
  · intro hsight
    by_contra hshort
    rw [getElem?_append_left (by omega)] at hstart
    have hmem : _ ∈ read.drop offset := mem_drop_of_getElem? hstart (by omega)
    rw [← hholding.pending] at hmem
    exact absurd (isHeaderByte_of_mem hholding.possible hmem) (by decide)
  · intro hsight
    exact Nat.le_trans (Nat.add_le_add_right hholding.inside _) hsight

variable {chunks : List Bytes}

/-- A header that has been passed through in part is not found. -/
theorem Holding.not_found
    (h : Holding read offset detector) (hlt : position < offset) :
    found read detector chunks ≠ some (direction, position) := by
  intro hfound
  exact absurd (h.found_sound hfound).1 (Nat.not_le_of_lt hlt)

theorem Holding.not_firstHeader (h : Holding read offset detector)
    (hle : offset ≤ position) :
    ¬ FirstHeader (read ++ ([] : List Bytes).flatten) direction position := by
  intro hfirst
  have hheader := hfirst.header
  simp only [flatten_nil, append_nil] at hheader
  have hnone := headerDirection_drop_of_possible h.possible (position - offset)
  rw [h.pending, drop_drop, Nat.add_sub_cancel' hle, hheader] at hnone
  cases hnone

theorem Holding.kept_eq (h : Holding read offset detector)
    (hprompt : AfterPrompt read position) (hle : position ≤ read.length)
    (hheld : offset ≤ position) : offset = position := by
  have hpossible := h.possible
  rw [h.pending] at hpossible
  exact Nat.le_antisymm hheld (offset_le_of_afterPrompt hprompt hle hpossible)

/-- Once the first byte of the header is held back, every later chunk that
ends inside the padding loses it. -/
theorem Holding.found_inside_iff
    (h : Holding read position detector) (hlt : position < read.length)
    (hfirst : FirstHeader (read ++ chunks.flatten) direction position)
    (hprompt : AfterPrompt read position) :
    found read detector chunks = some (direction, position) ↔
      gapSpans position read.length chunks = [] := by
  induction chunks generalizing read detector with
  | nil => exact absurd hfirst (h.not_firstHeader (Nat.le_refl _))
  | cons chunk rest ih =>
    simp only [flatten_cons, ← append_assoc] at hfirst
    have hlonger : position < (read ++ chunk).length := by simp; omega
    have hprompt' : AfterPrompt (read ++ chunk) position := by
      rwa [AfterPrompt, take_append_of_le_length (Nat.le_of_lt hlt)]
    have hend : (read ++ chunk).length = read.length + chunk.length :=
      length_append
    rcases h.feed_cases hfirst (Nat.le_refl _) with
      ⟨hlong, hfound⟩ | ⟨hpossible, hnone⟩
    · rw [gapSpans_cons_of_outside (.inr (by omega)),
        gapSpans_eq_nil (by omega)]
      simp [hfound rest]
    · have hpossible := hpossible (Nat.le_of_lt hlonger)
      obtain ⟨kept, passthrough, next, hfeed, hnext, hle, hretained, hkept⟩ :=
        h.feed_noMatch hnone
      rw [found_of_noMatch hfeed]
      rcases Nat.lt_or_ge (read ++ chunk).length (position + 3) with
        hshort | hlong
      · rw [gapSpans_cons_of_inside (by omega) (by omega)]
        refine ⟨fun hfound => absurd hfound (hnext.not_found ?_), by simp⟩
        by_contra hhere
        have hsight := kept_gap hprompt' hlonger hshort (Nat.le_refl _)
          hpossible (hretained (by omega)) (by omega)
        omega
      · rw [gapSpans_cons_of_outside (.inr (by omega)), ← hend]
        obtain rfl : kept = position := by
          refine Nat.le_antisymm
            (hkept position (Nat.le_refl _) hlonger ⟨hpossible, .inl ?_⟩) hle
          rw [zdle_mem_of_possible hpossible, length_drop]
          omega
        exact ih hnext hlonger hfirst hprompt'

/-- Before the first byte of the header has been read. -/
theorem Holding.found_afterPrompt_iff
    (h : Holding read offset detector) (hread : read.length ≤ position)
    (hfirst : FirstHeader (read ++ chunks.flatten) direction position)
    (hprompt : AfterPrompt (read ++ chunks.flatten) position) :
    found read detector chunks = some (direction, position) ↔
      PromptInSight position read.length chunks := by
  induction chunks generalizing read offset detector with
  | nil => exact absurd hfirst (h.not_firstHeader (h.inside.trans hread))
  | cons chunk rest ih =>
    simp only [flatten_cons, ← append_assoc] at hfirst hprompt
    have hend : (read ++ chunk).length = read.length + chunk.length :=
      length_append
    have hoffset : offset ≤ position := h.inside.trans hread
    rcases h.feed_cases hfirst hoffset with
      ⟨hlong, hfound⟩ | ⟨hpossible, hnone⟩
    · rw [PromptInSight, gapSpans_cons_of_outside (.inr (by omega)),
        gapSpans_eq_nil (by omega)]
      simp [hfound rest]
    obtain ⟨kept, passthrough, next, hfeed, hnext, hle, hretained, hkept⟩ :=
      h.feed_noMatch hnone
    rw [found_of_noMatch hfeed]
    rcases Nat.lt_or_ge position (read ++ chunk).length with hlt | hge
    · have hpossible := hpossible (Nat.le_of_lt hlt)
      have hprompt' := hprompt.of_append (Nat.le_of_lt hlt)
      rcases Nat.lt_or_ge (read ++ chunk).length (position + 3) with
        hshort | hlong
      · rw [promptInSight_cons_of_inside (by omega) (by omega), ← hend,
          ← sight_iff hprompt' hlt hread h]
        constructor
        · intro hfound
          have hheld : kept ≤ position := by
            by_contra hlost
            exact hnext.not_found (by omega) hfound
          have hsight := kept_gap hprompt' hlt hshort hoffset hpossible
            (hretained (by omega)) (by omega)
          obtain rfl := hnext.kept_eq hprompt' (Nat.le_of_lt hlt) hheld
          exact ⟨hsight, (hnext.found_inside_iff hlt hfirst hprompt').mp
            hfound⟩
        · rintro ⟨hsight, hgap⟩
          have hheld := hkept position hoffset hlt
            ((retained_gap_iff hprompt' hlt hshort hoffset hpossible).mpr
              hsight)
          obtain rfl := hnext.kept_eq hprompt' (Nat.le_of_lt hlt) hheld
          exact (hnext.found_inside_iff hlt hfirst hprompt').mpr hgap
      · have hheld : kept ≤ position := by
          refine hkept position hoffset hlt ⟨hpossible, .inl ?_⟩
          rw [zdle_mem_of_possible hpossible, length_drop]
          omega
        obtain rfl := hnext.kept_eq hprompt' (Nat.le_of_lt hlt) hheld
        rw [hnext.found_inside_iff hlt hfirst hprompt', PromptInSight,
          gapSpans_cons_of_outside (.inr (by omega)), ← hend,
          gapSpans_eq_nil hlong]
        simp
    · rw [PromptInSight, gapSpans_cons_of_outside (.inl (by omega)), ← hend]
      exact ih hnext hge hfirst hprompt

end Prompt

/-! The detector against every split of a stream: no byte is lost, and a
header is detected at its place unless a split hides the prompt from its
padding. -/

/-- The bytes passed through, the echo stripped before an upload, the bytes
held back or handed to the transfer, and the chunks not read are the stream. -/
def Outcome.Accounts (stream : Bytes) : Outcome → Prop
  | .scanning passthrough detector => passthrough ++ detector.pending = stream
  | .detected direction passthrough initialBytes unread =>
    ∃ echo, (echo = [] ∨ direction = .upload ∧ echo ∈ rzEchoPatterns) ∧
      passthrough ++ echo ++ (initialBytes ++ unread.flatten) = stream

theorem stripRzEcho_spec (data : Bytes) :
    ∃ echo, (echo = [] ∨ echo ∈ rzEchoPatterns) ∧
      stripRzEcho data ++ echo = data := by
  unfold stripRzEcho
  split
  · next pattern hpattern =>
    have hsuffix : pattern <:+ data := by
      simpa using find?_some hpattern
    obtain ⟨front, rfl⟩ := hsuffix
    exact ⟨pattern, .inr (mem_of_find?_eq_some hpattern), by simp⟩
  · exact ⟨[], .inl rfl, by simp⟩

theorem Outcome.Accounts.after {stream shown : Bytes} {outcome : Outcome}
    (h : outcome.Accounts stream) :
    (outcome.after shown).Accounts (shown ++ stream) := by
  cases outcome with
  | scanning passthrough detector =>
    simp only [Outcome.Accounts] at h
    simp [Outcome.after, Outcome.Accounts, ← h]
  | detected direction passthrough initialBytes unread =>
    obtain ⟨echo, hecho, h⟩ := h
    exact ⟨echo, hecho, by simp [← h]⟩

theorem feed_noMatch_accounts {detector next : ZmodemDetector}
    {passthrough : Bytes}
    (h : detector.feed data = (.noMatch passthrough, next)) :
    passthrough ++ next.pending = detector.pending ++ data := by
  simp only [feed] at h
  split at h
  · cases h
  · simp only [Prod.mk.injEq, ZmodemDetectResult.noMatch.injEq] at h
    obtain ⟨rfl, rfl⟩ := h
    split
    · exact take_append_drop _ _
    · next hzero =>
      have hkeep : retainedPrefixStart (detector.pending ++ data)
          detector.pendingStartsAtLineStart = 0 := by omega
      rw [hkeep]
      rfl

theorem feed_detected_accounts {detector next : ZmodemDetector}
    {direction : ZmodemDirection} {passthrough initialBytes : Bytes}
    (h : detector.feed data =
      (.detected direction passthrough initialBytes, next)) :
    ∃ echo, (echo = [] ∨ direction = .upload ∧ echo ∈ rzEchoPatterns) ∧
      passthrough ++ echo ++ initialBytes = detector.pending ++ data := by
  simp only [feed] at h
  split at h
  · next found headerStart _ =>
    simp only [Prod.mk.injEq, ZmodemDetectResult.detected.injEq] at h
    obtain ⟨⟨rfl, rfl, rfl⟩, -⟩ := h
    split
    · next hupload =>
      obtain ⟨echo, hecho, hstrip⟩ :=
        stripRzEcho_spec ((detector.pending ++ data).take headerStart)
      refine ⟨echo, hecho.imp_right fun h => ⟨hupload, h⟩, ?_⟩
      rw [hstrip, take_append_drop]
    · exact ⟨[], .inl rfl, by simp⟩
  · cases h

/-- Whatever state the detector is in, it loses nothing. -/
theorem feedAll_accounts (detector : ZmodemDetector) (chunks : List Bytes) :
    (detector.feedAll chunks).Accounts
      (detector.pending ++ chunks.flatten) := by
  induction chunks generalizing detector with
  | nil => simp [feedAll, Outcome.Accounts]
  | cons chunk rest ih =>
    rw [feedAll, flatten_cons, ← append_assoc]
    split
    · next direction passthrough initialBytes next hfeed =>
      obtain ⟨echo, hecho, hsplit⟩ := feed_detected_accounts hfeed
      exact ⟨echo, hecho, by rw [← hsplit]; simp⟩
    · next passthrough next hfeed =>
      rw [← feed_noMatch_accounts hfeed, append_assoc]
      exact (ih next).after

/-- What is expected of the detector on one split of a stream: nothing is lost,
a header at the start of a line or right after the prompt is the one detected,
and where there is none, none is. -/
structure SplitSafe (chunks : List Bytes) : Prop where
  accounts : (({} : ZmodemDetector).feedAll chunks).Accounts chunks.flatten
  header : ∀ direction position, FirstHeader chunks.flatten direction position
    → atLineStart chunks.flatten position ∨
      AfterPrompt chunks.flatten position →
    found [] {} chunks = some (direction, position)
  none : (∀ position, headerDirection (chunks.flatten.drop position) = none) →
    found [] {} chunks = none

/-- A split is safe exactly when, of a header right after the prompt, at most
one chunk ends inside the padding, and that chunk contains the prompt. -/
theorem splitSafe_iff (chunks : List Bytes) :
    SplitSafe chunks ↔ ∀ direction position, FirstHeader chunks.flatten
        direction position → AfterPrompt chunks.flatten position →
        PromptInSight position 0 chunks := by
  constructor
  · intro h direction position hfirst hprompt
    exact (holding_initial.found_afterPrompt_iff (Nat.zero_le _) hfirst
      hprompt).mp (h.header direction position hfirst (.inr hprompt))
  · intro h
    refine ⟨feedAll_accounts {} chunks, ?_, ?_⟩
    · rintro direction position hfirst (hline | hprompt)
      · exact holding_initial.found_lineStart (Nat.zero_le _) hfirst hline
      · exact (holding_initial.found_afterPrompt_iff (Nat.zero_le _) hfirst
          hprompt).mpr (h direction position hfirst hprompt)
    · intro hnone
      cases hfound : found [] {} chunks with
      | none => rfl
      | some hit =>
        have hheader := (holding_initial.found_sound hfound).2
        simp [hnone] at hheader

/-- The receive prompt, the padding and the rest of an upload header, each in
a chunk of its own. -/
def hiddenPrompt : List Bytes :=
  [rzReceivePrompt, [zpad, zpad], [zdle, zhex, 0x30, 0x31]]

/-- Read in one piece the same stream starts an upload; split, nothing is
detected. -/
theorem hidden_prompt_missed :
    found [] {} [hiddenPrompt.flatten] = some (.upload, 21) ∧
      found [] {} hiddenPrompt = none ∧ ¬ SplitSafe hiddenPrompt := by
  refine ⟨by decide, by decide, fun h => ?_⟩
  have hfirst : FirstHeader hiddenPrompt.flatten .upload 21 :=
    ⟨by decide, by decide⟩
  have hprompt : AfterPrompt hiddenPrompt.flatten 21 := ⟨[], rfl⟩
  have hfound := h.header .upload 21 hfirst (.inr hprompt)
  exact absurd hfound (by decide)

end NiceTerm.Zmodem
