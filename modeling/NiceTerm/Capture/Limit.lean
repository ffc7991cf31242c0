/-
The limit of a capture's buffer.  The first text that does not fit is cut at a
character; what is appended after that still takes the room the cut has left.
-/
import NiceTerm.Capture.Processor
import NiceTerm.Lib.RustSplit

namespace NiceTerm.Capture

open List RustStr

/-- The part of a text that `append_capture_output` takes. -/
def fitting (capture : ActiveCapture) (text : Str) : Str :=
  let available := maxCaptureBytes - len capture.buffer
  if len text ≤ available then text
  else (splitAt text (floorCharBoundary text (min available (len text)))).1

theorem appendCaptureOutput_fitting (capture : ActiveCapture) (text : Str) :
    appendCaptureOutput text capture = { capture with
      buffer := capture.buffer ++ fitting capture text
      sourceTruncated := capture.sourceTruncated ||
        decide (maxCaptureBytes - len capture.buffer < len text) } := by
  unfold appendCaptureOutput fitting
  by_cases hroom : len text ≤ maxCaptureBytes - len capture.buffer
  · have hfits := decide_eq_false (Nat.not_lt.mpr hroom)
    simp only [hroom, ↓reduceIte, hfits, Bool.or_false]
  · have hcut := decide_eq_true (Nat.lt_of_not_le hroom)
    simp only [hroom, ↓reduceIte, hcut, Bool.or_true]

/-- The longest front of a text within the limit, where not all of it is. -/
structure Cut (text cut : Str) : Prop where
  isPrefix : cut <+: text
  within : len cut ≤ maxCaptureBytes
  beyond : maxCaptureBytes < len text
  longest : ∀ front, front <+: text → len front ≤ maxCaptureBytes →
    front <+: cut

theorem Cut.append {text cut : Str} (h : Cut text cut) (more : Str) :
    Cut (text ++ more) cut := by
  refine ⟨h.isPrefix.trans (prefix_append text more), h.within, ?_, ?_⟩
  · have hbeyond := h.beyond
    rw [len_append]
    omega
  · intro front hfront hlen
    have hshort := isPrefix_of_len_le hfront (prefix_append text more)
      (hlen.trans h.beyond.le)
    exact h.longest front hshort hlen

variable {capture : ActiveCapture}

/-- The first text that does not fit is cut as late as possible. -/
theorem cut_of_overflow {text : Str}
    (hbuffer : len capture.buffer ≤ maxCaptureBytes)
    (hover : maxCaptureBytes - len capture.buffer < len text) :
    Cut (capture.buffer ++ text) (capture.buffer ++ fitting capture text) := by
  have hmin : min (maxCaptureBytes - len capture.buffer) (len text) =
      maxCaptureBytes - len capture.buffer := Nat.min_eq_left hover.le
  have hfitting : fitting capture text = (splitAt text (floorCharBoundary text
      (maxCaptureBytes - len capture.buffer))).1 := by
    rw [fitting, if_neg (Nat.not_le.mpr hover), hmin]
  have hlen := len_splitAt (isCharBoundary_floorCharBoundary text
    (maxCaptureBytes - len capture.buffer))
  have hle := floorCharBoundary_le text (maxCaptureBytes - len capture.buffer)
  rw [← hfitting] at hlen
  have hfront : fitting capture text <+: text :=
    ⟨_, by rw [hfitting]; exact splitAt_append _ _⟩
  refine ⟨(prefix_append_right_inj _).mpr hfront, ?_, ?_, ?_⟩
  · rw [len_append]
    omega
  · rw [len_append]
    omega
  · intro front hprefix hwithin
    rcases prefix_or_prefix_of_prefix hprefix
      (prefix_append capture.buffer text) with hshort | ⟨part, rfl⟩
    · exact hshort.trans (prefix_append _ _)
    · have hpart := (prefix_append_right_inj _).mp hprefix
      refine (prefix_append_right_inj _).mpr
        (isPrefix_of_len_le hpart hfront ?_)
      obtain ⟨back, rfl⟩ := hpart
      rw [hlen]
      refine le_floorCharBoundary ?_ (isCharBoundary_len_append part back)
      rw [len_append] at hwithin
      omega

variable (text : Str)

def Blank : Prop :=
  ∀ c ∈ text, isWhitespace c = true

instance : DecidablePred Blank := fun text =>
  inferInstanceAs (Decidable (∀ c ∈ text, isWhitespace c = true))

theorem blank_append {front back : Str} :
    Blank (front ++ back) ↔ Blank front ∧ Blank back :=
  forall_mem_append

/-- The characters of a text that are not white space. -/
def visible : Str :=
  text.filter fun c => !isWhitespace c

theorem visible_append (front back : Str) :
    visible (front ++ back) = visible front ++ visible back :=
  filter_append ..

theorem visible_eq_nil {text : Str} : visible text = [] ↔ Blank text := by
  rw [visible, filter_eq_nil_iff]
  simp only [Bool.not_eq_true, Bool.not_eq_false', Blank]

theorem visible_dropWhile :
    visible (text.dropWhile isWhitespace) = visible text := by
  induction text with
  | nil => rfl
  | cons c cs ih =>
    by_cases hc : isWhitespace c = true
    · rw [dropWhile_cons_of_pos hc, ih, visible, visible,
        filter_cons_of_neg (by simp [hc])]
    · rw [dropWhile_cons_of_neg hc]

theorem visible_reverse :
    visible text.reverse = (visible text).reverse :=
  filter_reverse ..

/-- Trimming takes only white space. -/
theorem visible_trim : visible (trim text) = visible text := by
  rw [trim, visible_reverse, visible_dropWhile, visible_reverse,
    visible_dropWhile, reverse_reverse]

theorem trim_append_blank {text space : Str} (h : Blank space) :
    trim (text ++ space) = trim text := by
  rw [trim, trim, dropWhile_append]
  split
  · next hempty =>
    rw [List.isEmpty_iff] at hempty
    have hspace : space.dropWhile isWhitespace = [] := by
      rw [← append_nil space, dropWhile_append_of_pos h]
      rfl
    rw [hempty, hspace]
  · have hreverse : ∀ c ∈ space.reverse, isWhitespace c = true :=
      fun c hc => h c (mem_reverse.mp hc)
    rw [reverse_append, dropWhile_append_of_pos hreverse]

/-- Text behind a cut shows, unless it is white space. -/
theorem blank_of_trim_eq {cut junk front : Str} (hfront : front <+: cut)
    (htrim : trim (cut ++ junk) = trim front) : Blank junk := by
  obtain ⟨rest, rfl⟩ := hfront
  have hvisible := congrArg (fun text => (visible text).length) htrim
  simp only [visible_trim, visible_append, length_append] at hvisible
  exact visible_eq_nil.mp (length_eq_zero_iff.mp (by omega))

/-- Behind a cut nothing but white space is appended. -/
def AppendKeeps (capture : ActiveCapture) (text : Str) : Prop :=
  capture.sourceTruncated = true → Blank (fitting capture text)

/-- In front of the end marker stands nothing that shows behind a cut, and
nothing that goes beyond the limit. -/
def EndKeeps (capture : ActiveCapture) (before : Str) : Prop :=
  if capture.sourceTruncated then Blank before
  else len (capture.buffer ++ before) ≤ maxCaptureBytes

/-- What a capture holds of the text it has read: all of it, or the longest
front within the limit with what was appended behind it. -/
inductive Reads (capture : ActiveCapture) (read : Str) (keeps : Prop) : Prop
  | whole (truncated : capture.sourceTruncated = false)
      (buffer : capture.buffer = read)
      (within : len read ≤ maxCaptureBytes) (kept : keeps)
  | cut (cut junk : Str) (truncated : capture.sourceTruncated = true)
      (buffer : capture.buffer = cut ++ junk) (longest : Cut read cut)
      (kept : keeps ↔ Blank junk)

theorem Reads.append {read : Str} {keeps : Prop}
    (h : Reads capture read keeps) (text : Str) :
    Reads (appendCaptureOutput text capture) (read ++ text)
      (keeps ∧ AppendKeeps capture text) := by
  rw [appendCaptureOutput_fitting]
  cases h with
  | whole htruncated hbuffer hwithin hkept =>
    have hkeeps : AppendKeeps capture text := fun h =>
      Bool.noConfusion (htruncated.symm.trans h)
    by_cases hroom : len text ≤ maxCaptureBytes - len capture.buffer
    · refine .whole ?_ ?_ ?_ ⟨hkept, hkeeps⟩
      · rw [htruncated, Bool.false_or]
        exact decide_eq_false (Nat.not_lt.mpr hroom)
      · change capture.buffer ++ fitting capture text = read ++ text
        rw [fitting, if_pos hroom, hbuffer]
      · rw [hbuffer] at hroom
        rw [len_append]
        omega
    · have hover := Nat.lt_of_not_le hroom
      refine .cut (capture.buffer ++ fitting capture text) [] ?_ ?_ ?_ ?_
      · exact Bool.or_eq_true_iff.mpr (.inr (decide_eq_true hover))
      · exact (append_nil _).symm
      · rw [← hbuffer] at hwithin ⊢
        exact cut_of_overflow hwithin hover
      · exact iff_of_true ⟨hkept, hkeeps⟩ fun _ hc =>
          absurd hc not_mem_nil
  | cut cut junk htruncated hbuffer hlongest hkept =>
    refine .cut cut (junk ++ fitting capture text) ?_ ?_
      (hlongest.append text) ?_
    · exact Bool.or_eq_true_iff.mpr (.inl htruncated)
    · change capture.buffer ++ fitting capture text = _
      rw [hbuffer, append_assoc]
    · rw [blank_append, hkept]
      exact and_congr_right fun _ => ⟨fun h => h htruncated, fun h _ => h⟩

/-- The output delivered is a front of the command's output within the limit,
up to the trim, and says whether anything is missing. -/
def TruePrefix (output : Str) (result : CapturedOutput) : Prop :=
  ∃ front, front <+: output ∧ len front ≤ maxCaptureBytes ∧ result.output =
    trim front ∧ (result.sourceTruncated = true ↔ front ≠ output)

/-- What is sent at an end marker behind `before`. -/
def endResult (capture : ActiveCapture) (before : Str)
    (exitCode : Option Int) : CapturedOutput where
  output := trim (capture.buffer ++ before)
  exitCode
  sourceTruncated := capture.sourceTruncated

theorem Reads.truePrefix_iff {read before : Str}
    {keeps : Prop} (h : Reads capture read keeps) (exitCode : Option Int) :
    TruePrefix (read ++ before) (endResult capture before exitCode) ↔
      keeps ∧ EndKeeps capture before := by
  unfold EndKeeps
  cases h with
  | whole htruncated hbuffer hwithin hkept =>
    rw [htruncated, if_neg Bool.false_ne_true, hbuffer]
    constructor
    · rintro ⟨front, -, hlen, -, hmissing⟩
      have hwhole : front = read ++ before := by
        by_contra hne
        exact Bool.noConfusion (htruncated.symm.trans (hmissing.mpr hne))
      exact ⟨hkept, hwhole ▸ hlen⟩
    · rintro ⟨-, hlen⟩
      refine ⟨read ++ before, prefix_rfl, hlen, ?_, ?_⟩
      · rw [endResult, hbuffer]
      · exact iff_of_false
          (fun h => Bool.noConfusion (htruncated.symm.trans h))
          (not_not.mpr rfl)
  | cut cut junk htruncated hbuffer hlongest hkept =>
    rw [htruncated, if_pos rfl, hkept, ← blank_append]
    have houtput : (endResult capture before exitCode).output =
        trim (cut ++ (junk ++ before)) := by
      rw [endResult, hbuffer, append_assoc]
    have hwhole := hlongest.append before
    constructor
    · rintro ⟨front, hprefix, hlen, htrim, -⟩
      rw [houtput] at htrim
      exact blank_of_trim_eq (hwhole.longest front hprefix hlen) htrim
    · intro hblank
      refine ⟨cut, hwhole.isPrefix, hwhole.within, ?_, ?_⟩
      · rw [houtput, trim_append_blank hblank]
      · refine iff_of_true htruncated ?_
        rintro rfl
        exact Nat.not_lt.mpr hwhole.within hwhole.beyond

end NiceTerm.Capture
