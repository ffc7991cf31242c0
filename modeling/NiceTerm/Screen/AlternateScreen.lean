/-
The tracker that reads from terminal output whether the alternate screen is
shown.  It looks for the sequences that set or reset a private mode, and keeps
the beginning of one at the end of the output for the next call.
-/
import Mathlib.Data.List.Infix
import Mathlib.Data.List.TakeWhile
import NiceTerm.Lib.JsString

namespace NiceTerm.Screen

open JsString List Option

def esc : UInt16 := 0x1B

/-- The final characters `h` and `l`. -/
def setMode : UInt16 := 0x68
def resetMode : UInt16 := 0x6C

def introducer : JsStr := [esc, 0x5B, 0x3F]

/-- `"47"`, `"1047"` and `"1049"` -/
def altScreenParams : List JsStr :=
  [[0x34, 0x37], [0x31, 0x30, 0x34, 0x37], [0x31, 0x30, 0x34, 0x39]]

def maxPendingSequenceChars : Nat := 32

/-- `;`, which separates the parameters. -/
def separator : UInt16 := 0x3B

def isParam (unit : UInt16) : Bool :=
  (0x30 ≤ unit.toNat && unit.toNat ≤ 0x39) || unit == separator

def isFinal (unit : UInt16) : Bool :=
  unit == setMode || unit == resetMode

/-- What `/^\x1b\[\?([0-9;]*)([hl])/u` matches of a text. -/
def sequenceMatch (candidate : JsStr) : Option JsStr :=
  if introducer.isPrefixOf candidate then
    let params := (candidate.drop introducer.length).takeWhile isParam
    let length := introducer.length + params.length
    match (candidate.drop length).head? with
    | some final =>
      if isFinal final then some (candidate.take (length + 1)) else none
    | none => none
  else none

def detectAlternateScreen (sequence : JsStr) : Option Bool :=
  if !introducer.isPrefixOf sequence then none
  else
    match sequence.getLast? with
    | none => none
    | some final =>
      if !isFinal final then none
      else
        let params :=
          (sequence.drop introducer.length).dropLast.splitOn separator
        if !params.any altScreenParams.contains then none
        else some (final == setMode)

def isPotentialPrefix (text : JsStr) : Bool :=
  if !text.isPrefixOf introducer && !introducer.isPrefixOf text then false
  else if maxPendingSequenceChars < text.length then false
  else if !introducer.isPrefixOf text then true
  else (text.drop introducer.length).all isParam

/-- The loop of `findPendingSequenceSuffix`; the next index is below the
count. -/
def pendingLoop (text : JsStr) (start : Nat) : Nat → JsStr
  | 0 => []
  | index + 1 =>
    if index < start then []
    else if text[index]? = some esc && isPotentialPrefix (text.drop index)
    then text.drop index
    else pendingLoop text start index

def findPendingSequenceSuffix (text : JsStr) : JsStr :=
  pendingLoop text (text.length - maxPendingSequenceChars) text.length

theorem final_not_param {unit : UInt16} (h : isFinal unit = true) :
    isParam unit = false := by
  rw [isFinal, Bool.or_eq_true, beq_iff_eq, beq_iff_eq] at h
  rcases h with rfl | rfl
  · decide
  · decide

/-- Behind the introducer only the character after the parameters counts. -/
theorem sequenceMatch_append {params tail : JsStr}
    (hparams : ∀ unit ∈ params, isParam unit = true)
    (htail : ∀ unit ∈ tail.head?, isParam unit = false) :
    sequenceMatch (introducer ++ params ++ tail) =
      (tail.head?.filter isFinal).map fun final =>
        introducer ++ params ++ [final] := by
  have hfront : introducer.isPrefixOf (introducer ++ params ++ tail) = true :=
    isPrefixOf_iff_prefix.mpr ⟨params ++ tail, by rw [append_assoc]⟩
  have hbehind : (introducer ++ params ++ tail).drop introducer.length =
      params ++ tail := by
    rw [append_assoc, drop_left]
  have hnone : tail.takeWhile isParam = [] := by
    cases tail with
    | nil => rfl
    | cons unit rest =>
      rw [takeWhile_cons, htail unit rfl]
      rfl
  have hwhile : (params ++ tail).takeWhile isParam = params := by
    rw [takeWhile_append_of_pos hparams, hnone, append_nil]
  have hlength : introducer.length + params.length =
      (introducer ++ params).length := length_append.symm
  rw [sequenceMatch, if_pos hfront, hbehind]
  simp only [hwhile, hlength, drop_left]
  cases tail with
  | nil => rfl
  | cons final rest =>
    have htake : (introducer ++ params ++ final :: rest).take
        ((introducer ++ params).length + 1) =
          introducer ++ params ++ [final] := by
      rw [take_length_add_append]
      rfl
    simp only [head?_cons, htake, filter_some]
    by_cases hfinal : isFinal final = true
    · rw [if_pos hfinal, if_pos hfinal, map_some]
    · rw [if_neg hfinal, if_neg hfinal, map_none]

/-- A match is the introducer, parameters and a final character. -/
theorem sequenceMatch_eq_some {candidate found : JsStr} :
    sequenceMatch candidate = some found ↔
      ∃ params final rest, candidate = introducer ++ params ++ final :: rest ∧
        (∀ unit ∈ params, isParam unit = true) ∧ isFinal final = true ∧
        found = introducer ++ params ++ [final] := by
  constructor
  · intro h
    by_cases hfront : introducer.isPrefixOf candidate = true
    · obtain ⟨behind, rfl⟩ := isPrefixOf_iff_prefix.mp hfront
      have hparams : ∀ unit ∈ behind.takeWhile isParam, isParam unit = true :=
        fun unit hmem => mem_takeWhile_imp hmem
      have htail : ∀ unit ∈ (behind.dropWhile isParam).head?,
          isParam unit = false := by
        intro unit hmem
        have hnot := head?_dropWhile_not isParam behind
        rw [mem_def.mp hmem] at hnot
        simpa using hnot
      rw [← takeWhile_append_dropWhile (p := isParam) (l := behind),
        ← append_assoc, sequenceMatch_append hparams htail] at h
      obtain ⟨final, hfinal, rfl⟩ := map_eq_some_iff.mp h
      obtain ⟨hhead, hkind⟩ := filter_eq_some_iff.mp hfinal
      obtain ⟨rest, hrest⟩ := head?_eq_some_iff.mp hhead
      refine ⟨_, final, rest, ?_, hparams, hkind, rfl⟩
      rw [← hrest, append_assoc, takeWhile_append_dropWhile]
    · rw [sequenceMatch, if_neg hfront] at h
      cases h
  · rintro ⟨params, final, rest, rfl, hparams, hfinal, rfl⟩
    rw [sequenceMatch_append hparams]
    · simp [hfinal]
    · intro unit hunit
      obtain rfl := some.inj hunit
      exact final_not_param hfinal

/-- No method reads `changes`, the values that `alternateScreen` has changed
to. -/
structure AlternateScreenStateTracker where
  alternateScreen : Bool := false
  pendingSequence : JsStr := []
  changes : List Bool := []
deriving DecidableEq, Repr

namespace AlternateScreenStateTracker

/-- `this.alternateScreen = next` -/
def assign (t : AlternateScreenStateTracker) (next : Bool) :
    AlternateScreenStateTracker :=
  { t with
    alternateScreen := next
    changes := if next = t.alternateScreen then t.changes
      else t.changes ++ [next] }

/-- The loop of `ingest`; the text from `index` on is left. -/
def scan (t : AlternateScreenStateTracker) :
    JsStr → AlternateScreenStateTracker
  | [] => t
  | unit :: tail =>
    if unit ≠ esc then t.scan tail
    else
      match _hmatch : sequenceMatch
          ((unit :: tail).take maxPendingSequenceChars) with
      | none => t.scan tail
      | some found =>
        scan ((detectAlternateScreen found).elim t t.assign)
          ((unit :: tail).drop found.length)
termination_by rest => rest.length
decreasing_by
  · exact Nat.lt_succ_self _
  · exact Nat.lt_succ_self _
  · obtain ⟨params, final, -, -, -, -, rfl⟩ :=
      sequenceMatch_eq_some.mp _hmatch
    simp only [List.length_drop, length_append, length_cons]
    omega

def ingest (t : AlternateScreenStateTracker) (data : JsStr) :
    AlternateScreenStateTracker :=
  if data.isEmpty then t
  else
    let text := t.pendingSequence ++ data
    { scan { t with pendingSequence := [] } text with
      pendingSequence := findPendingSequenceSuffix text }

end AlternateScreenStateTracker

/-! What a call finds in its text is found at the same places in any text that
goes on behind it, except at the one end that may begin a sequence, and that
end is what the tracker keeps. -/

/-- What is detected at the front of a text. -/
def detectedAt (text : JsStr) : Option Bool :=
  if text.head? = some esc then
    (sequenceMatch (text.take maxPendingSequenceChars)).bind
      detectAlternateScreen
  else none

/-- What is detected at any place of a text that is followed by another. -/
def detectedBefore (rest : JsStr) : JsStr → List Bool
  | [] => []
  | unit :: tail =>
    (detectedAt (unit :: tail ++ rest)).toList ++ detectedBefore rest tail

def detected (text : JsStr) : List Bool :=
  detectedBefore [] text

theorem detectedBefore_append (rest front back : JsStr) :
    detectedBefore rest (front ++ back) =
      detectedBefore (back ++ rest) front ++ detectedBefore rest back := by
  induction front with
  | nil => rfl
  | cons unit tail ih =>
    simp only [cons_append, detectedBefore, ih, append_assoc]

theorem detected_append (front back : JsStr) :
    detected (front ++ back) = detectedBefore back front ++ detected back := by
  rw [detected, detectedBefore_append, append_nil]
  rfl

theorem detectedBefore_of_plain {front : JsStr} (h : esc ∉ front)
    (rest : JsStr) : detectedBefore rest front = [] := by
  induction front with
  | nil => rfl
  | cons unit tail ih =>
    rw [mem_cons, not_or] at h
    have hat : detectedAt (unit :: tail ++ rest) = none := by
      rw [detectedAt, if_neg]
      intro hhead
      exact h.1 (Option.some.inj hhead).symm
    rw [detectedBefore, hat, ih h.2]
    rfl

theorem esc_not_mem_params {params : JsStr}
    (h : ∀ unit ∈ params, isParam unit = true) : esc ∉ params := by
  intro hmem
  exact absurd (h esc hmem) (by decide)

section

variable {params : JsStr} {final : UInt16}
    (hparams : ∀ unit ∈ params, isParam unit = true)
    (hfinal : isFinal final = true)
include hparams hfinal

/-- Behind its first character a match has no escape character. -/
theorem esc_not_mem_match :
    esc ∉ introducer.tail ++ params ++ [final] := by
  have hne : esc ≠ final := by
    rintro rfl
    exact absurd hfinal (by decide)
  rw [mem_append, mem_append, mem_singleton, not_or, not_or]
  exact ⟨⟨by decide, esc_not_mem_params hparams⟩, hne⟩

theorem detected_match (behind : JsStr) :
    detected (introducer ++ params ++ [final] ++ behind) =
      (detectedAt (introducer ++ params ++ [final] ++ behind)).toList ++
        detected behind := by
  have hplain := detectedBefore_of_plain (esc_not_mem_match hparams hfinal)
    behind
  rw [detected_append]
  change (detectedAt _).toList ++
    detectedBefore behind (introducer.tail ++ params ++ [final]) ++ _ = _
  rw [hplain, append_nil]
  rfl

end

namespace AlternateScreenStateTracker

open List

theorem foldl_assign_toList (t : AlternateScreenStateTracker)
    (next : Option Bool) :
    next.toList.foldl assign t = next.elim t t.assign := by
  cases next with
  | none => rfl
  | some next => rfl

/-- The loop assigns what is detected, one after the other. -/
theorem scan_eq (t : AlternateScreenStateTracker) (text : JsStr) :
    t.scan text = (detected text).foldl assign t := by
  fun_induction scan t text with
  | case1 t => rfl
  | case2 t unit tail hplain ih =>
    have hat : detectedAt (unit :: tail ++ []) = none := by
      rw [detectedAt, if_neg]
      exact fun hhead => hplain (Option.some.inj hhead)
    rw [ih, detected, detected, detectedBefore, hat]
    rfl
  | case3 t unit tail hesc hnone ih =>
    have hat : detectedAt (unit :: tail ++ []) = none := by
      rw [detectedAt, append_nil, hnone]
      split
      · rfl
      · rfl
    rw [ih, detected, detected, detectedBefore, hat]
    rfl
  | case4 t unit tail hesc found hmatch ih =>
    obtain rfl := Decidable.not_not.mp hesc
    obtain ⟨params, final, rest, htake, hparams, hfinal, rfl⟩ :=
      sequenceMatch_eq_some.mp hmatch
    have htext : esc :: tail = introducer ++ params ++ [final] ++
        (rest ++ (esc :: tail).drop maxPendingSequenceChars) := by
      calc esc :: tail
        _ = (esc :: tail).take maxPendingSequenceChars ++
              (esc :: tail).drop maxPendingSequenceChars :=
            (take_append_drop _ _).symm
        _ = _ := by
            rw [htake]
            simp only [append_assoc, cons_append, nil_append]
    generalize rest ++ (esc :: tail).drop maxPendingSequenceChars = behind
      at htext
    have hbehind : (esc :: tail).drop
        (introducer ++ params ++ [final]).length = behind := by
      rw [htext, drop_left]
    have hat : detectedAt (esc :: tail) =
        detectAlternateScreen (introducer ++ params ++ [final]) := by
      rw [detectedAt, if_pos head?_cons, hmatch]
      rfl
    have hall := detected_match hparams hfinal behind
    rw [← htext, hat] at hall
    rw [ih, hbehind, hall, foldl_append, foldl_assign_toList]

end AlternateScreenStateTracker

/-- An end of the text that may begin a sequence. -/
structure Begins (text begun : JsStr) : Prop where
  isSuffix : begun <:+ text
  ne_nil : begun ≠ []
  potential : isPotentialPrefix begun = true

variable {text : JsStr}

/-- What may begin a sequence is the beginning of the introducer, or the
introducer with parameters. -/
theorem isPotentialPrefix_iff :
    isPotentialPrefix text = true ↔ text.length ≤ maxPendingSequenceChars ∧
        (text <+: introducer ∨ ∃ params, text = introducer ++ params ∧
          ∀ unit ∈ params, isParam unit = true) := by
  have hparams : introducer <+: text →
      ((text.drop introducer.length).all isParam = true ↔
        ∃ params, text = introducer ++ params ∧
          ∀ unit ∈ params, isParam unit = true) := by
    rintro ⟨behind, rfl⟩
    rw [drop_left, List.all_eq_true]
    constructor
    · exact fun hall => ⟨behind, rfl, hall⟩
    · rintro ⟨params, hsame, hall⟩
      rwa [append_cancel_left hsame]
  have hbool : introducer.isPrefixOf text = true ↔ introducer <+: text :=
    isPrefixOf_iff_prefix
  have hbegun : text.isPrefixOf introducer = true ↔ text <+: introducer :=
    isPrefixOf_iff_prefix
  rw [isPotentialPrefix, ← Nat.not_lt]
  by_cases hlong : maxPendingSequenceChars < text.length
  · simp [hlong]
  · by_cases hfront : introducer <+: text
    · have hlonger : text <+: introducer → text = introducer ++ [] := by
        intro hshort
        rw [append_nil]
        exact hshort.eq_of_length (Nat.le_antisymm hshort.length_le
          hfront.length_le)
      simp only [hbool.mpr hfront, Bool.not_true, Bool.and_false,
        Bool.false_eq_true, hlong, ↓reduceIte, not_false_eq_true, true_and,
        hparams hfront]
      constructor
      · exact .inr
      · rintro (hshort | hall)
        · exact ⟨[], hlonger hshort, by simp⟩
        · exact hall
    · have hno : introducer.isPrefixOf text = false :=
        Bool.eq_false_iff.mpr fun h => hfront (hbool.mp h)
      have hnone : ¬ ∃ params, text = introducer ++ params ∧
          ∀ unit ∈ params, isParam unit = true := by
        rintro ⟨params, rfl, -⟩
        exact hfront (prefix_append introducer params)
      by_cases hshort : text <+: introducer
      · simp [hno, hlong, hshort, hbegun.mpr hshort]
      · have hnot : text.isPrefixOf introducer = false :=
          Bool.eq_false_iff.mpr fun h => hshort (hbegun.mp h)
        simp [hno, hnot, hlong, hshort, hnone]

/-- An end that may begin a sequence has its only escape character in front. -/
theorem Begins.plain {text begun : JsStr} (h : Begins text begun) :
    ∃ rest, begun = esc :: rest ∧ esc ∉ rest := by
  have htail : esc ∉ introducer.tail := by decide
  obtain ⟨-, hfront | ⟨params, rfl, hparams⟩⟩ :=
    isPotentialPrefix_iff.mp h.potential
  · cases begun with
    | nil => exact absurd rfl h.ne_nil
    | cons unit rest =>
      obtain ⟨rfl, hrest⟩ := cons_prefix_cons.mp hfront
      exact ⟨rest, rfl, fun hmem => htail (hrest.subset hmem)⟩
  · refine ⟨introducer.tail ++ params, rfl, ?_⟩
    rw [mem_append, not_or]
    exact ⟨htail, esc_not_mem_params hparams⟩

/-- A longer end would have a second escape character. -/
theorem Begins.eq_of_suffix {first second : JsStr}
    (hfirst : Begins text first) (hsecond : Begins text second)
    (hsuffix : first <:+ second) : first = second := by
  obtain ⟨front, rfl⟩ := hsuffix
  obtain ⟨rest, rfl, -⟩ := hfirst.plain
  obtain ⟨others, hothers, hplain⟩ := hsecond.plain
  cases front with
  | nil => rfl
  | cons unit front =>
    obtain rfl := (cons.inj hothers).2
    exact absurd (mem_append_right front mem_cons_self) hplain

theorem Begins.unique {first second : JsStr} (hfirst : Begins text first)
    (hsecond : Begins text second) : first = second := by
  rcases suffix_or_suffix_of_suffix hfirst.isSuffix hsecond.isSuffix
    with h | h
  · exact hfirst.eq_of_suffix hsecond h
  · exact (hsecond.eq_of_suffix hfirst h).symm

/-- The end of the text that the tracker keeps. -/
def Kept (text begun : JsStr) : Prop :=
  Begins text begun ∨ begun = [] ∧ ∀ other, ¬ Begins text other

theorem Kept.unique {first second : JsStr} (hfirst : Kept text first)
    (hsecond : Kept text second) : first = second := by
  rcases hfirst with hfirst | ⟨rfl, hnone⟩
  · rcases hsecond with hsecond | ⟨-, hnone⟩
    · exact hfirst.unique hsecond
    · exact absurd hfirst (hnone first)
  · rcases hsecond with hsecond | ⟨rfl, -⟩
    · exact absurd hsecond (hnone second)
    · rfl

/-- The loop stops at an end that may begin a sequence. -/
theorem pendingLoop_spec (text : JsStr) (start : Nat) {count : Nat}
    (hcount : count ≤ text.length) :
    Begins text (pendingLoop text start count) ∨
      pendingLoop text start count = [] ∧ ∀ index, start ≤ index →
        index < count → ¬ Begins text (text.drop index) := by
  induction count with
  | zero => exact .inr ⟨rfl, fun index _ hlt => absurd hlt (Nat.not_lt_zero _)⟩
  | succ index ih =>
    rw [pendingLoop]
    by_cases hstart : index < start
    · rw [if_pos hstart]
      exact .inr ⟨rfl, fun other hle hlt => by omega⟩
    · have hlt : index < text.length := hcount
      rw [if_neg hstart]
      by_cases hfound : (decide (text[index]? = some esc) &&
          isPotentialPrefix (text.drop index)) = true
      · rw [if_pos hfound]
        rw [Bool.and_eq_true] at hfound
        refine .inl ⟨drop_suffix index text, ?_, hfound.2⟩
        exact ne_nil_of_length_pos (by rw [length_drop]; omega)
      · rw [if_neg hfound]
        rcases ih (Nat.le_of_succ_le hcount) with hbegun | ⟨hnil, hnone⟩
        · exact .inl hbegun
        · refine .inr ⟨hnil, fun other hle hother hbegun => ?_⟩
          rcases Nat.lt_succ_iff_lt_or_eq.mp hother with hless | rfl
          · exact hnone other hle hless hbegun
          · obtain ⟨rest, hrest, -⟩ := hbegun.plain
            apply hfound
            have hhead : text[other]? = some esc := by
              rw [← head?_drop, hrest]
              rfl
            rw [hhead, hbegun.potential]
            rfl

theorem kept_findPendingSequenceSuffix (text : JsStr) :
    Kept text (findPendingSequenceSuffix text) := by
  rcases pendingLoop_spec text (text.length - maxPendingSequenceChars)
    (Nat.le_refl _) with hfound | ⟨hnil, hnone⟩
  · exact .inl hfound
  · refine .inr ⟨hnil, fun other hother => ?_⟩
    have hlength := (isPotentialPrefix_iff.mp hother.potential).1
    have hpos := length_pos_of_ne_nil hother.ne_nil
    have hle := hother.isSuffix.length_le
    refine hnone (text.length - other.length) (by omega) (by omega) ?_
    rw [← suffix_iff_eq_drop.mp hother.isSuffix]
    exact hother

theorem sequenceMatch_of_mismatch
    (h : ¬ introducer <+: text) : sequenceMatch text = none := by
  rw [sequenceMatch, if_neg]
  exact fun hbool => h (List.isPrefixOf_iff_prefix.mp hbool)

/-- A text that begins no sequence is told from a match by its own
characters. -/
theorem sequenceMatch_of_not_potential
    (hlength : text.length ≤ maxPendingSequenceChars)
    (h : isPotentialPrefix text = false) (rest : JsStr) :
    sequenceMatch (text ++ rest) = sequenceMatch text := by
  have hnot : ¬ (text <+: introducer ∨ ∃ params, text = introducer ++ params ∧
      ∀ unit ∈ params, isParam unit = true) := by
    intro hbegun
    rw [isPotentialPrefix_iff.mpr ⟨hlength, hbegun⟩] at h
    cases h
  rw [not_or] at hnot
  by_cases hfront : introducer <+: text
  · obtain ⟨behind, rfl⟩ := hfront
    have hparams : ∀ unit ∈ behind.takeWhile isParam, isParam unit = true :=
      fun unit hmem => mem_takeWhile_imp hmem
    have hbehind :=
      takeWhile_append_dropWhile (p := isParam) (l := behind)
    cases htail : behind.dropWhile isParam with
    | nil =>
      rw [htail, append_nil] at hbehind
      rw [hbehind] at hparams
      exact absurd ⟨behind, rfl, hparams⟩ hnot.2
    | cons final others =>
      have hfinal : isParam final = false := by
        have hhead := head?_dropWhile_not isParam behind
        rw [htail] at hhead
        simpa using hhead
      have hhere : ∀ more : JsStr,
          sequenceMatch (introducer ++ behind.takeWhile isParam ++
            (final :: more)) = (some final |>.filter isFinal).map fun final =>
                introducer ++ behind.takeWhile isParam ++ [final] := by
        intro more
        apply sequenceMatch_append hparams
        intro unit hunit
        rw [← Option.some.inj hunit]
        exact hfinal
      have hwhole := hhere others
      have hlonger := hhere (others ++ rest)
      rw [← cons_append, ← htail] at hlonger
      rw [← htail] at hwhole
      rw [← hbehind, ← append_assoc, hwhole, append_assoc, hlonger]
  · rw [sequenceMatch_of_mismatch hfront, sequenceMatch_of_mismatch]
    intro hlonger
    rcases prefix_or_prefix_of_prefix hlonger
      (prefix_append text rest) with h | h
    · exact hfront h
    · exact hnot.1 h

/-- What stands at the front of a text that begins no sequence is there
whatever follows. -/
theorem detectedAt_append (hne : text ≠ [])
    (h : isPotentialPrefix text = false) (rest : JsStr) :
    detectedAt (text ++ rest) = detectedAt text := by
  rw [detectedAt, detectedAt, head?_append_of_ne_nil text hne]
  by_cases hshort : text.length ≤ maxPendingSequenceChars
  · rw [take_append, take_of_length_le hshort,
      sequenceMatch_of_not_potential hshort h]
  · have hlong := Nat.le_of_not_le hshort
    rw [take_append_of_le_length hlong]

theorem detectedAt_of_potential
    (h : isPotentialPrefix text = true) : detectedAt text = none := by
  obtain ⟨hlength, hfront⟩ := isPotentialPrefix_iff.mp h
  have hnone : sequenceMatch text = none := by
    rcases hfront with hshort | ⟨params, rfl, hparams⟩
    · by_contra hsome
      obtain ⟨found, hfound⟩ := Option.ne_none_iff_exists'.mp hsome
      obtain ⟨params, final, rest, rfl, -⟩ := sequenceMatch_eq_some.mp hfound
      have hle := hshort.length_le
      simp only [length_append, length_cons] at hle
      omega
    · have hmatch : sequenceMatch (introducer ++ params ++ []) = none :=
        sequenceMatch_append hparams (by simp)
      rwa [append_nil] at hmatch
  rw [detectedAt, take_of_length_le hlength, hnone]
  split
  · rfl
  · rfl

theorem detectedBefore_congr {front rest other : JsStr}
    (h : ∀ text, text ≠ [] → text <:+ front →
      detectedAt (text ++ rest) = detectedAt (text ++ other)) :
    detectedBefore rest front = detectedBefore other front := by
  induction front with
  | nil => rfl
  | cons unit tail ih =>
    have htail := ih fun text hne hsuffix =>
      h text hne (hsuffix.trans (suffix_cons unit tail))
    have hfirst := h (unit :: tail) (cons_ne_nil unit tail) suffix_rfl
    rw [detectedBefore, detectedBefore, hfirst, htail]

namespace Kept

open List

theorem isSuffix {text begun : JsStr} (h : Kept text begun) :
    begun <:+ text := by
  rcases h with h | ⟨rfl, -⟩
  · exact h.isSuffix
  · exact nil_suffix

theorem detected_eq {text begun : JsStr} (h : Kept text begun) :
    detected begun = [] := by
  rcases h with h | ⟨rfl, -⟩
  · obtain ⟨rest, rfl, hplain⟩ := h.plain
    have hat := detectedAt_of_potential h.potential
    rw [detected, detectedBefore, append_nil, hat,
      detectedBefore_of_plain hplain]
    rfl
  · rfl

/-- What is detected in a text is detected as well if another text follows,
behind the end that is kept. -/
theorem detected_append {text begun : JsStr} (h : Kept text begun)
    (rest : JsStr) :
    detected (text ++ rest) = detected text ++ detected (begun ++ rest) := by
  obtain ⟨front, rfl⟩ := h.isSuffix
  have hsame : detectedBefore (begun ++ rest) front =
      detectedBefore begun front := by
    apply detectedBefore_congr
    intro text hne hsuffix
    obtain ⟨before, rfl⟩ := hsuffix
    rw [← append_assoc]
    apply detectedAt_append (by simp [hne])
    by_contra hpotential
    have hbegins : Begins (before ++ text ++ begun) (text ++ begun) :=
      ⟨⟨before, by rw [append_assoc]⟩, by simp [hne],
        Bool.not_eq_false _ |>.mp hpotential⟩
    have hlength := congrArg List.length (Kept.unique h (.inl hbegins))
    rw [length_append] at hlength
    exact hne (eq_nil_of_length_eq_zero (by omega))
  rw [append_assoc, Screen.detected_append,
    Screen.detected_append front begun, hsame, h.detected_eq, append_nil]

end Kept

theorem potential_of_append {rest : JsStr}
    (h : isPotentialPrefix (text ++ rest) = true) :
    isPotentialPrefix text = true := by
  obtain ⟨hlength, hfront⟩ := isPotentialPrefix_iff.mp h
  rw [length_append] at hlength
  refine isPotentialPrefix_iff.mpr ⟨by omega, ?_⟩
  rcases hfront with hshort | ⟨params, hparams, hall⟩
  · exact .inl ((prefix_append text rest).trans hshort)
  · rcases append_eq_append_iff.mp hparams with
      ⟨more, hmore, -⟩ | ⟨front, rfl, rfl⟩
    · exact .inl ⟨more, hmore.symm⟩
    · exact .inr ⟨front, rfl, fun unit hmem =>
        hall unit (mem_append_left rest hmem)⟩

/-- What is kept of a text and what follows is kept of both. -/
theorem Kept.append {begun last rest : JsStr} (h : Kept text begun)
    (hlast : Kept (begun ++ rest) last) : Kept (text ++ rest) last := by
  have hsuffix : begun ++ rest <:+ text ++ rest := by
    obtain ⟨front, rfl⟩ := h.isSuffix
    exact ⟨front, by rw [append_assoc]⟩
  rcases hlast with hlast | ⟨rfl, hnone⟩
  · exact .inl ⟨hlast.isSuffix.trans hsuffix, hlast.ne_nil, hlast.potential⟩
  · refine .inr ⟨rfl, fun other hother => ?_⟩
    obtain ⟨front, hfront⟩ := hother.isSuffix
    rcases append_eq_append_iff.mp hfront with
      ⟨before, rfl, rfl⟩ | ⟨behind, rfl, rfl⟩
    · by_cases hbefore : before = []
      · refine hnone _ ⟨?_, hother.ne_nil, hother.potential⟩
        rw [hbefore]
        exact suffix_append begun rest
      · have hbegins : Begins (front ++ before) before :=
          ⟨suffix_append front before, hbefore,
            potential_of_append hother.potential⟩
        obtain rfl := h.unique (.inl hbegins)
        exact hnone _ ⟨suffix_rfl, hother.ne_nil, hother.potential⟩
    · refine hnone other ⟨⟨begun ++ behind, ?_⟩, hother.ne_nil,
        hother.potential⟩
      rw [append_assoc]

namespace AlternateScreenStateTracker

theorem foldl_assign_pending (found : List Bool)
    (t : AlternateScreenStateTracker) (pendingSequence : JsStr) :
    found.foldl assign { t with pendingSequence } =
      { found.foldl assign t with pendingSequence } := by
  induction found generalizing t with
  | nil => rfl
  | cons next rest ih => exact ih (t.assign next)

/-- The tracker has read the text, beginning as `start`. -/
structure Read (start : AlternateScreenStateTracker) (text : JsStr)
    (t : AlternateScreenStateTracker) : Prop where
  kept : Kept text t.pendingSequence
  assigned : t = { (detected text).foldl assign start with
    pendingSequence := t.pendingSequence }

variable {start t : AlternateScreenStateTracker}

theorem Read.unique {u : AlternateScreenStateTracker} {text : JsStr}
    (ht : Read start text t) (hu : Read start text u) : t = u := by
  rw [ht.assigned, hu.assigned, ht.kept.unique hu.kept]

theorem Read.ingest {text : JsStr} (h : Read start text t) (data : JsStr) :
    Read start (text ++ data) (t.ingest data) := by
  cases data with
  | nil =>
    rw [append_nil]
    exact h
  | cons unit rest =>
    have hassigned :
        (detected (t.pendingSequence ++ unit :: rest)).foldl assign t =
          { (detected (text ++ unit :: rest)).foldl assign start with
            pendingSequence := t.pendingSequence } := by
      calc (detected (t.pendingSequence ++ unit :: rest)).foldl assign t
        _ = (detected (t.pendingSequence ++ unit :: rest)).foldl assign
              { (detected text).foldl assign start with
                pendingSequence := t.pendingSequence } :=
            congrArg (List.foldl assign · _) h.assigned
        _ = _ := by
            rw [foldl_assign_pending, h.kept.detected_append,
              List.foldl_append]
    have hingest : t.ingest (unit :: rest) =
        { (detected (text ++ unit :: rest)).foldl assign start with
          pendingSequence := findPendingSequenceSuffix
            (t.pendingSequence ++ unit :: rest) } := by
      rw [AlternateScreenStateTracker.ingest, if_neg (by simp)]
      simp only [scan_eq, foldl_assign_pending, hassigned]
    rw [hingest]
    exact ⟨h.kept.append (kept_findPendingSequenceSuffix _), rfl⟩

theorem Read.ingestAll {text : JsStr}
    (h : Read start text t) (chunks : List JsStr) :
    Read start (text ++ chunks.flatten)
      (chunks.foldl AlternateScreenStateTracker.ingest t) := by
  induction chunks generalizing text t with
  | nil => simpa using h
  | cons data rest ih =>
    have hrest := ih (h.ingest data)
    rw [append_assoc] at hrest
    exact hrest

theorem read_nil (alternateScreen : Bool) (changes : List Bool) :
    Read ⟨alternateScreen, [], changes⟩ []
      ⟨alternateScreen, [], changes⟩ where
  kept := .inr ⟨rfl, fun _ hother =>
    hother.ne_nil (List.eq_nil_of_suffix_nil hother.isSuffix)⟩
  assigned := rfl

/-- A tracker that holds nothing back ends in one state, with the same changes
made, however the output is cut into calls. -/
theorem ingest_chunks (alternateScreen : Bool) (changes : List Bool)
    (chunks : List JsStr) :
    chunks.foldl ingest ⟨alternateScreen, [], changes⟩ =
      ingest ⟨alternateScreen, [], changes⟩ chunks.flatten := by
  have hstart := read_nil alternateScreen changes
  exact (hstart.ingestAll chunks).unique (hstart.ingest chunks.flatten)

end AlternateScreenStateTracker

end NiceTerm.Screen
