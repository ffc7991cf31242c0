/-
The recent output of the sessions: lines and an unfinished line, trimmed to a
number of lines and of bytes while a text is split.  What is stored does not
depend on the splitting where no escape sequence is cut and the limits fall
into no complete line behind the first one.
-/
import NiceTerm.Lib.RustStr

namespace NiceTerm.Capabilities

open List
open RustStr (Str len)

/-! ## Escape sequences -/

/-- The escape sequences that the crate knows: the length of the complete one
that a text begins with, or zero.  A complete one is known by its own text. -/
structure Escapes where
  length : Str → Nat
  within : ∀ text, length text ≤ text.length
  own : ∀ text other, 0 < length text →
    text.take (length text) <+: other → length other = length text

namespace Escapes

variable (escapes : Escapes)

def stripFrom : Nat → Str → Str
  | 0, _ => []
  | _ + 1, [] => []
  | n + 1, c :: rest =>
    if escapes.length (c :: rest) = 0 then c :: stripFrom n rest
    else stripFrom n ((c :: rest).drop (escapes.length (c :: rest)))

/-- `strip_ansi_escapes::strip_str`: exactly the complete sequences go. -/
def stripStr (text : Str) : Str := escapes.stripFrom text.length text

theorem stripFrom_enough {n : Nat} {text : Str} (h : text.length ≤ n) :
    escapes.stripFrom n text = escapes.stripStr text := by
  have hmore : ∀ n m (text : Str), text.length ≤ n → text.length ≤ m →
      escapes.stripFrom n text = escapes.stripFrom m text := by
    intro n
    induction n with
    | zero =>
      intro m text hn hm
      obtain rfl := length_eq_zero_iff.mp (Nat.le_zero.mp hn)
      cases m <;> rfl
    | succ n ih =>
      intro m text hn hm
      cases text with
      | nil => cases m <;> rfl
      | cons c rest =>
        cases m with
        | zero => cases hm
        | succ m =>
          rw [length_cons] at hn hm
          by_cases hplain : escapes.length (c :: rest) = 0
          · rw [stripFrom, stripFrom, if_pos hplain, if_pos hplain,
              ih m rest (by omega) (by omega)]
          · rw [stripFrom, stripFrom, if_neg hplain, if_neg hplain]
            have hdrop : ((c :: rest).drop
                (escapes.length (c :: rest))).length ≤ rest.length := by
              rw [length_drop, length_cons]
              omega
            exact ih m _ (by omega) (by omega)
  exact hmore n text.length text h (Nat.le_refl _)

theorem stripStr_plain {c : Char} {rest : Str}
    (h : escapes.length (c :: rest) = 0) :
    escapes.stripStr (c :: rest) = c :: escapes.stripStr rest := by
  rw [stripStr, length_cons, stripFrom, if_pos h]
  rfl

theorem stripStr_escape {sequence rest : Str} (hne : sequence ≠ [])
    (h : escapes.length (sequence ++ rest) = sequence.length) :
    escapes.stripStr (sequence ++ rest) = escapes.stripStr rest := by
  obtain ⟨c, front, rfl⟩ := exists_cons_of_ne_nil hne
  rw [cons_append] at h ⊢
  have hnot : escapes.length (c :: (front ++ rest)) ≠ 0 := by
    rw [h]
    exact Nat.succ_ne_zero front.length
  rw [stripStr, length_cons, stripFrom, if_neg hnot, h, length_cons,
    drop_succ_cons, drop_left]
  apply stripFrom_enough
  rw [length_append]
  omega

/-- Read up to `back`, the text ends between two characters or sequences. -/
inductive Whole (back : Str) : Str → Prop where
  | done : Whole back []
  | plain {c : Char} {rest : Str} (h : escapes.length (c :: rest ++ back) = 0)
      (hrest : Whole back rest) : Whole back (c :: rest)
  | escape {sequence rest : Str} (hne : sequence ≠ [])
      (h : escapes.length (sequence ++ rest ++ back) = sequence.length)
      (hrest : Whole back rest) : Whole back (sequence ++ rest)

variable {escapes}

theorem Whole.stripStr_append {front back : Str}
    (h : escapes.Whole back front) :
    escapes.stripStr (front ++ back) =
      escapes.stripStr front ++ escapes.stripStr back := by
  induction h with
  | done => rfl
  | @plain c rest hlength hrest ih =>
    have hplain : escapes.length (c :: rest) = 0 := by
      refine Nat.eq_zero_of_not_pos fun hpos => ?_
      have hsame := escapes.own (c :: rest) (c :: rest ++ back) hpos
        ((List.take_prefix _ _).trans (prefix_append _ _))
      omega
    rw [cons_append] at hlength ⊢
    rw [escapes.stripStr_plain hlength, escapes.stripStr_plain hplain, ih,
      cons_append]
  | @escape sequence rest hne hlength hrest ih =>
    have hpos : 0 < sequence.length := length_pos_of_ne_nil hne
    have hshort : escapes.length (sequence ++ rest) = sequence.length := by
      rw [← hlength]
      apply escapes.own
      · rw [hlength]
        exact hpos
      · rw [hlength, append_assoc, take_left]
        exact prefix_append _ _
    rw [append_assoc] at hlength ⊢
    rw [escapes.stripStr_escape hne hlength,
      escapes.stripStr_escape hne hshort, ih]

/-- No text of the list ends inside an escape sequence. -/
def WholeCuts (escapes : Escapes) : List Str → Prop
  | [] => True
  | text :: rest => escapes.Whole rest.flatten text ∧ WholeCuts escapes rest

theorem WholeCuts.stripStr_flatten {texts : List Str}
    (h : escapes.WholeCuts texts) :
    escapes.stripStr texts.flatten = texts.flatMap escapes.stripStr := by
  induction texts with
  | nil => rfl
  | cons text rest ih =>
    rw [flatten_cons, h.1.stripStr_append, ih h.2, flatMap_cons]

end Escapes

/-! ## The store -/

@[irreducible] def maxLines : Nat := 500

@[irreducible] def maxBytes : Nat := 512 * 1024

structure SessionOutput where
  lines : List Str
  partialLine : Str
  bytes : Nat
  deriving DecidableEq, Repr

def SessionOutput.empty : SessionOutput := ⟨[], [], 0⟩

/-- What `text.drain(..utf8_boundary_at_or_after(text, index))` leaves. -/
def fromBoundary : Str → Nat → Str
  | text, 0 => text
  | [], _ + 1 => []
  | c :: rest, index + 1 => fromBoundary rest (index + 1 - c.utf8Size)

/-- The loop of `trim`, on the lines and the bytes. -/
def trimLines (partialLine : Str) : List Str → Nat → SessionOutput
  | [], bytes =>
    ⟨[], if len partialLine > maxBytes then
      fromBoundary partialLine (len partialLine - maxBytes)
      else partialLine, bytes⟩
  | line :: rest, bytes =>
    if rest.length + 1 > maxLines ∨ bytes + len partialLine > maxBytes then
      trimLines partialLine rest (bytes - (len line + 1))
    else ⟨line :: rest, partialLine, bytes⟩

def trim (output : SessionOutput) : SessionOutput :=
  trimLines output.partialLine output.lines output.bytes

def pushLine (output : SessionOutput) (line : Str) : SessionOutput :=
  if len line + 1 > maxBytes then
    let kept := fromBoundary line (len line + 1 - maxBytes)
    trim ⟨[kept], output.partialLine, len kept + 1⟩
  else
    trim ⟨output.lines ++ [line], output.partialLine,
      output.bytes + (len line + 1)⟩

/-- The loop over the line breaks of the unfinished line. -/
def splitLines : Nat → SessionOutput → SessionOutput
  | 0, output => output
  | n + 1, output =>
    if '\n' ∈ output.partialLine then
      splitLines n (pushLine { output with
          partialLine := (output.partialLine.dropWhile (· ≠ '\n')).tail }
        (output.partialLine.takeWhile (· ≠ '\n')))
    else output

variable (escapes : Escapes)

def clean (text : Str) : Str :=
  (escapes.stripStr text).filter (· ≠ '\r')

/-- `append` on the output of its session. -/
def appendOutput (output : SessionOutput) (text : Str) : SessionOutput :=
  if text = [] then output
  else
    let pushed := output.partialLine ++ clean escapes text
    trim (splitLines pushed.length { output with partialLine := pushed })

abbrev RecentOutputStore := Str → Option SessionOutput

variable (store : RecentOutputStore) (sessionId : Str)

def RecentOutputStore.output :
    SessionOutput :=
  (store sessionId).getD .empty

def RecentOutputStore.append (text : Str) : RecentOutputStore := fun other =>
  if text = [] ∨ other ≠ sessionId then store other
  else some (appendOutput escapes (store.output sessionId) text)

def RecentOutputStore.remove :
    RecentOutputStore := fun other =>
  if other = sessionId then none else store other

/-- Lines and unfinished line as they came. -/
def SessionOutput.content (output : SessionOutput) : Str :=
  output.lines.flatMap (· ++ ['\n']) ++ output.partialLine

/-! ## Texts within the limits -/

def Fits (text : Str) : Prop :=
  len text ≤ maxBytes ∧ text.count '\n' ≤ maxLines

/-- The end of a text begins a line of it, or lies in its unfinished line. -/
def AtLine (text tail : Str) : Prop :=
  tail <:+ text ∧
    (tail = text ∨ (∃ front, text = front ++ '\n' :: tail) ∨ '\n' ∉ tail)

/-- The longest end of the text within the limits does not begin in the middle
of a complete line, or in the first one at most: all behind that line fits. -/
def CutsNoLine (text : Str) : Prop :=
  (∃ tail, AtLine text tail ∧ Fits tail ∧
    ∀ other, other <:+ text → Fits other → other <:+ tail) ∨
  ∃ line rest, text = line ++ '\n' :: rest ∧ '\n' ∉ line ∧ Fits rest

def lineBytes : List Str → Nat
  | [] => 0
  | line :: rest => len line + 1 + lineBytes rest

theorem lineBytes_append (front back : List Str) :
    lineBytes (front ++ back) = lineBytes front + lineBytes back := by
  induction front with
  | nil => exact (Nat.zero_add _).symm
  | cons line rest ih =>
    rw [cons_append, lineBytes, ih, lineBytes]
    omega

open SessionOutput

theorem len_content (output : SessionOutput) :
    len output.content = lineBytes output.lines + len output.partialLine := by
  have hlines : ∀ lines : List Str,
      len (lines.flatMap (· ++ ['\n'])) = lineBytes lines := by
    intro lines
    induction lines with
    | nil => rfl
    | cons line rest ih =>
      rw [flatMap_cons, RustStr.len_append, RustStr.len_append, ih]
      rfl
  rw [content, RustStr.len_append, hlines]

variable {lines : List Str}

theorem count_lines (h : ∀ line ∈ lines, '\n' ∉ line) :
    (lines.flatMap (· ++ ['\n'])).count '\n' = lines.length := by
  induction lines with
  | nil => rfl
  | cons line rest ih =>
    obtain ⟨hline, hrest⟩ := forall_mem_cons.mp h
    rw [flatMap_cons, count_append, count_append, ih hrest,
      count_eq_zero_of_not_mem hline, count_singleton_self, length_cons]
    omega

theorem lines_le_count (output : SessionOutput) :
    output.lines.length ≤ output.content.count '\n' := by
  have hlines : ∀ lines : List Str,
      lines.length ≤ (lines.flatMap (· ++ ['\n'])).count '\n' := by
    intro lines
    induction lines with
    | nil => exact Nat.zero_le _
    | cons line rest ih =>
      rw [flatMap_cons, count_append, count_append,
        count_singleton_self, length_cons]
      omega
  rw [content, count_append]
  exact Nat.le_trans (hlines output.lines) (Nat.le_add_right _ _)

theorem fromBoundary_suffix (text : Str) (index : Nat) :
    fromBoundary text index <:+ text := by
  induction text generalizing index with
  | nil => cases index <;> exact suffix_rfl
  | cons c rest ih =>
    cases index with
    | zero => exact suffix_rfl
    | succ index => exact (ih _).trans (suffix_cons c rest)

theorem len_fromBoundary (text : Str) (index : Nat) :
    len (fromBoundary text index) ≤ len text - index := by
  induction text generalizing index with
  | nil => cases index <;> exact Nat.zero_le _
  | cons c rest ih =>
    cases index with
    | zero => exact Nat.le_refl _
    | succ index =>
      have hrest := ih (index + 1 - c.utf8Size)
      rw [fromBoundary, RustStr.len_cons]
      omega

variable {text : Str}

theorem len_le_of_suffix {tail : Str} (h : tail <:+ text) :
    len tail ≤ len text := by
  obtain ⟨front, rfl⟩ := h
  rw [RustStr.len_append]
  exact Nat.le_add_left _ _

/-- No longer end of the text has so few bytes. -/
theorem suffix_fromBoundary {tail : Str} (h : tail <:+ text)
    {index : Nat} (hlen : len tail ≤ len text - index) :
    tail <:+ fromBoundary text index := by
  induction text generalizing index with
  | nil =>
    cases index with
    | zero => exact h
    | succ index => exact h
  | cons c rest ih =>
    cases index with
    | zero => exact h
    | succ index =>
      rw [RustStr.len_cons] at hlen
      rcases suffix_cons_iff.mp h with rfl | hrest
      · have hpos := c.utf8Size_pos
        rw [RustStr.len_cons] at hlen
        omega
      · refine ih hrest ?_
        have hle := len_le_of_suffix hrest
        omega

/-- An end that begins inside a line, and has its line break, is at no line. -/
theorem not_atLine {front tail : Str} (h : front ++ tail <:+ text)
    (hne : front ≠ []) (hfront : '\n' ∉ front) (htail : '\n' ∈ tail) :
    ¬ AtLine text tail := by
  obtain ⟨before, rfl⟩ := h
  rintro ⟨-, heq | ⟨other, hother⟩ | hout⟩
  · have hlength := congrArg List.length heq
    have hpos := length_pos_of_ne_nil hne
    simp only [length_append] at hlength
    omega
  · have htogether : before ++ front ++ tail = other ++ ['\n'] ++ tail := by
      rw [append_assoc, hother, append_assoc, singleton_append]
    have hsame := append_cancel_right htogether
    have hlast := congrArg List.getLast? hsame
    rw [List.getLast?_append_of_ne_nil _ hne, List.getLast?_concat] at hlast
    exact hfront (mem_of_getLast? hlast)
  · exact hout htail

/-- An end at a line, within the limits, has the whole first line or nothing of
it. -/
theorem AtLine.skip {line rest tail : Str} (h : AtLine text tail)
    (hcontent : line ++ '\n' :: rest <:+ text)
    (htail : tail <:+ line ++ '\n' :: rest) (hline : '\n' ∉ line)
    (hne : tail ≠ line ++ '\n' :: rest) : tail <:+ rest := by
  obtain ⟨front, hfront⟩ := htail
  have hinside : ∀ middle, line = front ++ middle →
      tail = middle ++ '\n' :: rest → tail <:+ rest := by
    rintro middle rfl rfl
    refine absurd h (not_atLine (hfront ▸ hcontent) ?_ ?_ ?_)
    · rintro rfl
      exact hne rfl
    · exact fun hmem => hline (mem_append_left _ hmem)
    · exact mem_append_right _ mem_cons_self
  rcases append_eq_append_iff.mp hfront with
    ⟨middle, hmiddle, htail⟩ | ⟨middle, hmiddle, htail⟩
  · exact hinside middle hmiddle htail
  · cases middle with
    | nil =>
      refine hinside [] ?_ htail.symm
      rw [hmiddle, append_nil, append_nil]
    | cons c more =>
      obtain ⟨-, rfl⟩ := List.cons.inj htail
      exact suffix_append more tail

theorem first_line_unique {line line' rest rest' : Str} (h : '\n' ∉ line)
    (h' : '\n' ∉ line') (heq : line ++ '\n' :: rest = line' ++ '\n' :: rest') :
    line = line' ∧ rest = rest' := by
  induction line generalizing line' with
  | nil =>
    cases line' with
    | nil => exact ⟨rfl, (List.cons.inj heq).2⟩
    | cons c more =>
      obtain ⟨rfl, -⟩ := List.cons.inj heq
      exact absurd mem_cons_self h'
  | cons c more ih =>
    cases line' with
    | nil =>
      obtain ⟨rfl, -⟩ := List.cons.inj heq
      exact absurd mem_cons_self h
    | cons c' more' =>
      obtain ⟨rfl, htail⟩ := List.cons.inj heq
      obtain ⟨rfl, hrest⟩ := ih (fun hmem => h (mem_cons_of_mem _ hmem))
        (fun hmem => h' (mem_cons_of_mem _ hmem)) htail
      exact ⟨rfl, hrest⟩

/-! ## What is stored -/

/-- The output is an end of the text, and has every end within the limits that
is at a line. -/
structure Stored (text : Str) (output : SessionOutput) : Prop where
  counted : output.bytes = lineBytes output.lines
  plain : ∀ line ∈ output.lines, '\n' ∉ line
  isEnd : output.content <:+ text
  keeps : ∀ tail, AtLine text tail → Fits tail → tail <:+ output.content

theorem content_cons (line : Str) (rest : List Str) (partialLine : Str)
    (bytes bytes' : Nat) :
    content ⟨line :: rest, partialLine, bytes⟩ =
      line ++ '\n' :: content ⟨rest, partialLine, bytes'⟩ := by
  simp [content]

theorem trimLines_stored {partialLine : Str}
    {bytes : Nat} (h : Stored text ⟨lines, partialLine, bytes⟩) :
    Stored text (trimLines partialLine lines bytes) := by
  induction lines generalizing bytes with
  | nil =>
    rw [trimLines]
    by_cases hlong : len partialLine > maxBytes
    · rw [if_pos hlong]
      exact {
        counted := h.counted
        plain := h.plain
        isEnd := (fromBoundary_suffix _ _).trans h.isEnd
        keeps := by
          intro tail hline hfits
          have htail : tail <:+ partialLine := h.keeps tail hline hfits
          have hle := hfits.1
          exact suffix_fromBoundary htail (by omega) }
    · rw [if_neg hlong]
      exact h
  | cons line rest ih =>
    rw [trimLines]
    by_cases hmuch : rest.length + 1 > maxLines ∨
        bytes + len partialLine > maxBytes
    · rw [if_pos hmuch]
      have hcontent := content_cons line rest partialLine bytes
        (bytes - (len line + 1))
      have hcounted : bytes = len line + 1 + lineBytes rest := h.counted
      apply ih
      exact {
        counted := by
          change bytes - (len line + 1) = lineBytes rest
          omega
        plain := fun other hmem => h.plain other (mem_cons_of_mem _ hmem)
        isEnd := by
          have hend := h.isEnd
          rw [hcontent] at hend
          refine List.IsSuffix.trans ?_ hend
          exact (suffix_cons _ _).trans (suffix_append _ _)
        keeps := by
          intro tail hline hfits
          have htail := h.keeps tail hline hfits
          have hend := h.isEnd
          have hlen := len_content ⟨line :: rest, partialLine, bytes⟩
          have hcount := lines_le_count ⟨line :: rest, partialLine, bytes⟩
          rw [hcontent] at htail hend hlen hcount
          refine hline.skip hend htail (h.plain line mem_cons_self) ?_
          rintro rfl
          obtain ⟨hbytes, hlines⟩ := hfits
          rw [hlen] at hbytes
          change rest.length + 1 ≤ _ at hcount
          change len line + 1 + lineBytes rest + len partialLine ≤ _ at hbytes
          omega }
    · rw [if_neg hmuch]
      exact h

theorem trimLines_within {partialLine : Str} {bytes : Nat}
    (h : bytes = lineBytes lines) :
    (trimLines partialLine lines bytes).lines.length ≤ maxLines ∧
      (trimLines partialLine lines bytes).bytes +
        len (trimLines partialLine lines bytes).partialLine ≤ maxBytes := by
  induction lines generalizing bytes with
  | nil =>
    obtain rfl : bytes = 0 := h
    rw [trimLines]
    refine ⟨Nat.zero_le _, ?_⟩
    rw [Nat.zero_add]
    by_cases hlong : len partialLine > maxBytes
    · rw [if_pos hlong]
      have hle := len_fromBoundary partialLine (len partialLine - maxBytes)
      change len (fromBoundary partialLine _) ≤ maxBytes
      omega
    · rw [if_neg hlong]
      exact Nat.le_of_not_lt hlong
  | cons line rest ih =>
    rw [trimLines]
    rw [lineBytes] at h
    by_cases hmuch : rest.length + 1 > maxLines ∨
        bytes + len partialLine > maxBytes
    · rw [if_pos hmuch]
      exact ih (by omega)
    · rw [if_neg hmuch]
      obtain ⟨hlines, hbytes⟩ := not_or.mp hmuch
      exact ⟨Nat.le_of_not_lt hlines, Nat.le_of_not_lt hbytes⟩

variable {output : SessionOutput}

theorem trim_within (h : output.bytes = lineBytes output.lines) :
    (trim output).lines.length ≤ maxLines ∧
      (trim output).bytes + len (trim output).partialLine ≤ maxBytes :=
  trimLines_within h

theorem trimLines_partialLine (partialLine : Str) (lines : List Str)
    (bytes : Nat) :
    (trimLines partialLine lines bytes).partialLine <:+ partialLine := by
  induction lines generalizing bytes with
  | nil =>
    rw [trimLines]
    by_cases hlong : len partialLine > maxBytes
    · rw [if_pos hlong]
      exact fromBoundary_suffix _ _
    · simp only [if_neg hlong]
      exact suffix_rfl
  | cons line rest ih =>
    rw [trimLines]
    by_cases hmuch : rest.length + 1 > maxLines ∨
        bytes + len partialLine > maxBytes
    · rw [if_pos hmuch]
      exact ih _
    · simp only [if_neg hmuch]
      exact suffix_rfl

theorem pushLine_partialLine (output : SessionOutput) (line : Str) :
    (pushLine output line).partialLine <:+ output.partialLine := by
  rw [pushLine]
  by_cases hlong : len line + 1 > maxBytes
  · rw [if_pos hlong]
    exact trimLines_partialLine _ _ _
  · rw [if_neg hlong]
    exact trimLines_partialLine _ _ _

theorem pushLine_stored {line rest : Str} (hline : '\n' ∉ line)
    (h : Stored text { output with partialLine := line ++ '\n' :: rest }) :
    Stored text (pushLine { output with partialLine := rest } line) := by
  rw [pushLine]
  by_cases hlong : len line + 1 > maxBytes
  · rw [if_pos hlong]
    apply trimLines_stored
    have hkept := fromBoundary_suffix line (len line + 1 - maxBytes)
    have hlines : line ++ '\n' :: rest <:+ text :=
      List.IsSuffix.trans (suffix_append _ _) h.isEnd
    have hcontent : content
        ⟨[fromBoundary line (len line + 1 - maxBytes)], rest,
          len (fromBoundary line (len line + 1 - maxBytes)) + 1⟩ =
        fromBoundary line (len line + 1 - maxBytes) ++ '\n' :: rest := by
      simp [content]
    exact {
      counted := rfl
      plain := forall_mem_singleton.mpr
        fun hmem => hline (hkept.subset hmem)
      isEnd := by
        rw [hcontent]
        exact (suffix_append_self_iff.mpr hkept).trans hlines
      keeps := by
        intro tail hatLine hfits
        -- a text with the whole line is too long
        have hlonger : ∀ other, other ++ (line ++ '\n' :: rest) ≠ tail := by
          rintro other rfl
          have hbytes := hfits.1
          rw [RustStr.len_append, RustStr.len_append, RustStr.len_cons]
            at hbytes
          have hone : '\n'.utf8Size = 1 := rfl
          omega
        have htail : tail <:+ line ++ '\n' :: rest := by
          rcases suffix_or_suffix_of_suffix
              (h.keeps tail hatLine hfits) (suffix_append _ _) with
            hshort | ⟨other, hother⟩
          · exact hshort
          · exact absurd hother (hlonger other)
        have hrest := hatLine.skip hlines htail hline
          fun heq => hlonger [] heq.symm
        rw [hcontent]
        exact hrest.trans ((suffix_cons _ _).trans (suffix_append _ _)) }
  · rw [if_neg hlong]
    apply trimLines_stored
    have hcontent : content ⟨output.lines ++ [line], rest,
        output.bytes + (len line + 1)⟩ = content
          { output with partialLine := line ++ '\n' :: rest } := by
      simp [content]
    exact {
      counted := by
        have hcounted : output.bytes = lineBytes output.lines := h.counted
        change output.bytes + (len line + 1) =
          lineBytes (output.lines ++ [line])
        rw [lineBytes_append, hcounted]
        rfl
      plain := forall_mem_append.mpr
        ⟨h.plain, forall_mem_singleton.mpr hline⟩
      isEnd := hcontent ▸ h.isEnd
      keeps := hcontent ▸ h.keeps }

/-- What holds of an output holds behind the loop if each line keeps it. -/
theorem splitLines_rule {P : SessionOutput → Prop}
    (hstep : ∀ (output : SessionOutput) (line rest : Str), '\n' ∉ line →
      P { output with partialLine := line ++ '\n' :: rest } →
      P (pushLine { output with partialLine := rest } line))
    {n : Nat} (h : P output) (hn : output.partialLine.length ≤ n) :
    P (splitLines n output) ∧ '\n' ∉ (splitLines n output).partialLine := by
  induction n generalizing output with
  | zero =>
    obtain hempty := length_eq_zero_iff.mp (Nat.le_zero.mp hn)
    refine ⟨h, ?_⟩
    rw [splitLines, hempty]
    exact not_mem_nil
  | succ n ih =>
    rw [splitLines]
    by_cases hbreak : '\n' ∈ output.partialLine
    · rw [if_pos hbreak]
      obtain ⟨line, rest, hsplit, hline⟩ :=
        eq_append_cons_of_mem hbreak
      have hplain : ∀ c ∈ line, decide (c ≠ '\n') = true := by
        rintro c hc
        exact decide_eq_true fun heq => hline (heq ▸ hc)
      have htake : output.partialLine.takeWhile (· ≠ '\n') = line := by
        rw [hsplit, takeWhile_append_of_pos hplain]
        simp
      have hdrop : (output.partialLine.dropWhile (· ≠ '\n')).tail =
          rest := by
        rw [hsplit, dropWhile_append_of_pos hplain]
        simp
      rw [htake, hdrop]
      apply ih
      · apply hstep _ _ _ hline
        rw [← hsplit]
        exact h
      · have hle := (pushLine_partialLine
          { output with partialLine := rest } line).length_le
        have hlength := congrArg List.length hsplit
        rw [length_append, length_cons] at hlength
        change _ ≤ rest.length at hle
        omega
    · rw [if_neg hbreak]
      exact ⟨h, hbreak⟩

/-! ## The first line -/

/-- The end of a line that fits with its line break. -/
def cutLine (line : Str) : Str := fromBoundary line (len line + 1 - maxBytes)

theorem cutLine_plain {line : Str} (h : '\n' ∉ line) : '\n' ∉ cutLine line :=
  fun hmem => h ((fromBoundary_suffix _ _).subset hmem)

/-- Cut once or twice, what is left of a line is the same. -/
theorem cutLine_of_suffix {line part : Str} (hpart : part <:+ line)
    (hcut : cutLine line <:+ part) : cutLine part = cutLine line := by
  have hle : len part ≤ len line := len_le_of_suffix hpart
  have hshort : cutLine part <:+ cutLine line := by
    apply suffix_fromBoundary ((fromBoundary_suffix _ _).trans hpart)
    have hcutPart := len_fromBoundary part (len part + 1 - maxBytes)
    omega
  have hlong : cutLine line <:+ cutLine part := by
    apply suffix_fromBoundary hcut
    have hcutLine := len_fromBoundary line (len line + 1 - maxBytes)
    have hless := len_le_of_suffix hcut
    change len (cutLine line) ≤ _ at hcutLine
    omega
  exact hshort.eq_of_length_le hlong.length_le

/-- The output is what follows the first line, and with it what is left of that
line if this fits as well. -/
def Begun (line rest : Str) (output : SessionOutput) : Prop :=
  (output.content = rest ∧ ¬ Fits (cutLine line ++ '\n' :: rest)) ∨
    (output.content = cutLine line ++ '\n' :: rest ∧ output.lines ≠ [])

/-- The first line may stand in the unfinished text still, cut at most where
it is to be cut. -/
def Opened (line rest : Str) (output : SessionOutput) : Prop :=
  Begun line rest output ∨ (output.lines = [] ∧ ∃ part,
    output.partialLine = part ++ '\n' :: rest ∧ part <:+ line ∧
      cutLine line <:+ part)

variable {line rest : Str}

theorem trimLines_begun {partialLine : Str} {bytes : Nat}
    (hline : '\n' ∉ line) (hfits : Fits rest)
    (hcounted : bytes = lineBytes lines)
    (hplain : ∀ line ∈ lines, '\n' ∉ line)
    (h : Begun line rest ⟨lines, partialLine, bytes⟩) :
    Begun line rest (trimLines partialLine lines bytes) := by
  induction lines generalizing bytes with
  | nil =>
    rcases h with ⟨hcontent, hnot⟩ | ⟨-, hsome⟩
    · have hall : partialLine = rest := hcontent
      subst hall
      rw [trimLines, if_neg (Nat.not_lt.mpr hfits.1)]
      exact .inl ⟨rfl, hnot⟩
    · exact absurd rfl hsome
  | cons first more ih =>
    rw [trimLines]
    by_cases hmuch : more.length + 1 > maxLines ∨
        bytes + len partialLine > maxBytes
    · rw [if_pos hmuch]
      have hover : ¬ Fits (content ⟨first :: more, partialLine, bytes⟩) := by
        rintro ⟨hbytes, hcount⟩
        have hlines := lines_le_count ⟨first :: more, partialLine, bytes⟩
        rw [len_content, ← hcounted] at hbytes
        change more.length + 1 ≤ _ at hlines
        change bytes + len partialLine ≤ _ at hbytes
        omega
      rw [lineBytes] at hcounted
      refine ih (by omega) (fun other hmem =>
        hplain other (mem_cons_of_mem _ hmem)) (.inl ?_)
      rcases h with ⟨hcontent, -⟩ | ⟨hcontent, -⟩
      · rw [hcontent] at hover
        exact absurd hfits hover
      · rw [hcontent] at hover
        rw [content_cons first more partialLine bytes
          (bytes - (len first + 1))] at hcontent
        exact ⟨(first_line_unique (hplain first mem_cons_self)
          (cutLine_plain hline) hcontent).2, hover⟩
    · rw [if_neg hmuch]
      exact h

theorem pushLine_begun {pushed after : Str} (hline : '\n' ∉ line)
    (hfits : Fits rest) (hpushed : '\n' ∉ pushed)
    (hstored : Stored text
      { output with partialLine := pushed ++ '\n' :: after })
    (h : Opened line rest
      { output with partialLine := pushed ++ '\n' :: after }) :
    Begun line rest (pushLine { output with partialLine := after } pushed) := by
  have hcounted : output.bytes = lineBytes output.lines := hstored.counted
  rcases h with hbegun | ⟨hnone, part, hpart, hsuffix, hcut⟩
  · have hcontent : content ⟨output.lines ++ [pushed], after,
        output.bytes + (len pushed + 1)⟩ = content
          { output with partialLine := pushed ++ '\n' :: after } := by
      simp [content]
    -- the pushed line stands behind the first one, where all fits
    have hbehind : pushed ++ '\n' :: after <:+ rest := by
      rcases hbegun with ⟨hrest, -⟩ | ⟨hrest, hsome⟩
      · exact hrest ▸ suffix_append _ _
      · obtain ⟨first, more, hlines⟩ := exists_cons_of_ne_nil hsome
        change output.lines = first :: more at hlines
        have hfirst : '\n' ∉ first :=
          hstored.plain first (hlines ▸ mem_cons_self)
        change output.lines.flatMap _ ++ _ = _ at hrest
        rw [hlines, flatMap_cons, append_assoc, append_assoc] at hrest
        rw [← (first_line_unique hfirst (cutLine_plain hline) hrest).2]
        exact suffix_append _ _
    have hbytes := len_le_of_suffix hbehind
    have hmost := hfits.1
    rw [RustStr.len_append, RustStr.len_cons] at hbytes
    have hone : '\n'.utf8Size = 1 := rfl
    rw [pushLine, if_neg (by omega)]
    apply trimLines_begun hline hfits
    · rw [lineBytes_append, hcounted]
      rfl
    · exact forall_mem_append.mpr
        ⟨hstored.plain, forall_mem_singleton.mpr hpushed⟩
    · exact hbegun.imp (fun h => ⟨hcontent.trans h.1, h.2⟩)
        fun h => ⟨hcontent.trans h.1, by simp⟩
  · change output.lines = [] at hnone
    change pushed ++ '\n' :: after = _ at hpart
    have hplain : '\n' ∉ part := fun hmem => hline (hsuffix.subset hmem)
    obtain ⟨rfl, rfl⟩ := first_line_unique hpushed hplain hpart
    have hpush : pushLine { output with partialLine := after } pushed =
        trim ⟨[cutLine pushed], after, len (cutLine pushed) + 1⟩ := by
      rw [pushLine]
      by_cases hlong : len pushed + 1 > maxBytes
      · rw [if_pos hlong]
        rfl
      · have hnothing : len pushed + 1 - maxBytes = 0 := by omega
        rw [if_neg hlong, cutLine, hnothing, fromBoundary, hcounted, hnone]
        simp [lineBytes]
    rw [hpush]
    apply trimLines_begun hline hfits rfl
    · exact forall_mem_singleton.mpr (cutLine_plain hpushed)
    · rw [cutLine_of_suffix hsuffix hcut]
      exact .inr ⟨by simp [content], cons_ne_nil _ _⟩

/-- A first line that all behind it fits is cut in one way. -/
def FirstLine (text : Str) (output : SessionOutput) : Prop :=
  ∀ line rest, text = line ++ '\n' :: rest → '\n' ∉ line → Fits rest →
    Opened line rest output

theorem splitLines_kept {n : Nat} (h : Stored text output)
    (hfirst : FirstLine text output) (hn : output.partialLine.length ≤ n) :
    (Stored text (splitLines n output) ∧ FirstLine text (splitLines n output)) ∧
      '\n' ∉ (splitLines n output).partialLine := by
  refine splitLines_rule (P := fun output => Stored text output ∧
    FirstLine text output) ?_ ⟨h, hfirst⟩ hn
  rintro output line rest hline ⟨hstored, hfirst⟩
  exact ⟨pushLine_stored hline hstored, fun first after heq hplain hfits =>
    .inl (pushLine_begun hplain hfits hline hstored
      (hfirst first after heq hplain hfits))⟩

/-! ## Between two appends -/

/-- Between two appends the output is within the limits, and no line break is
left in the unfinished line. -/
structure RecentTail (text : Str) (output : SessionOutput) : Prop
    extends Stored text output where
  first : FirstLine text output
  unfinished : '\n' ∉ output.partialLine
  fewLines : output.lines.length ≤ maxLines
  fewBytes : len output.content ≤ maxBytes

theorem Fits.of_append {front back : Str} (h : Fits (front ++ back)) :
    Fits front := by
  obtain ⟨hbytes, hlines⟩ := h
  rw [RustStr.len_append] at hbytes
  rw [count_append] at hlines
  exact ⟨by omega, by omega⟩

theorem content_push (output : SessionOutput) (more : Str) :
    content { output with partialLine := output.partialLine ++ more } =
      output.content ++ more := by
  rw [content, ← append_assoc]
  rfl

/-- A text that follows is behind the stored end as well. -/
theorem Stored.push (h : Stored text output) (more : Str) :
    Stored (text ++ more)
      { output with partialLine := output.partialLine ++ more } := by
  have hcontent := content_push output more
  exact {
    counted := h.counted
    plain := h.plain
    isEnd := by
      rw [hcontent]
      exact suffix_append_self_iff.mpr h.isEnd
    keeps := by
      rintro tail ⟨hsuffix, hline⟩ hfits
      rw [hcontent]
      rcases suffix_or_suffix_of_suffix hsuffix
          (suffix_append text more) with hshort | ⟨before, rfl⟩
      · exact hshort.trans (suffix_append _ _)
      · obtain ⟨front, hfront⟩ := hsuffix
        rw [← append_assoc] at hfront
        have hbefore : front ++ before = text := append_cancel_right hfront
        have hatLine : AtLine text before := by
          refine ⟨⟨front, hbefore⟩, ?_⟩
          rcases hline with heq | ⟨other, hother⟩ | hout
          · exact .inl (append_cancel_right heq)
          · refine .inr (.inl ⟨other, ?_⟩)
            rw [← cons_append, ← append_assoc] at hother
            exact append_cancel_right hother
          · exact .inr (.inr fun hmem => hout (mem_append_left _ hmem))
        exact suffix_append_self_iff.mpr
          (h.keeps before hatLine hfits.of_append) }

theorem RecentTail.first_push (h : RecentTail text output) (more : Str) :
    FirstLine (text ++ more)
      { output with partialLine := output.partialLine ++ more } := by
  intro line rest heq hline hfits
  by_cases hbreak : '\n' ∈ text
  · obtain ⟨first, after, htext, hfirst⟩ := eq_append_cons_of_mem hbreak
    rw [htext, append_assoc, cons_append] at heq
    obtain ⟨rfl, rfl⟩ := first_line_unique hfirst hline heq
    rcases h.first first after htext hline hfits.of_append with
      (⟨hcontent, hnot⟩ | ⟨hcontent, hsome⟩) | ⟨-, part, hpart, -⟩
    · refine .inl (.inl ⟨by rw [content_push, hcontent], fun hmore => hnot ?_⟩)
      rw [← cons_append, ← append_assoc] at hmore
      exact hmore.of_append
    · refine .inl (.inr ⟨?_, hsome⟩)
      rw [content_push, hcontent, append_assoc, cons_append]
    · exact absurd (by rw [hpart]; simp) h.unfinished
  · obtain ⟨middle, rfl, rfl⟩ :
        ∃ middle, line = text ++ middle ∧ more = middle ++ '\n' :: rest := by
      rcases append_eq_append_iff.mp heq with h | ⟨middle, rfl, hrest⟩
      · exact h
      · cases middle with
        | nil => exact ⟨[], by simp, hrest.symm⟩
        | cons c other =>
          obtain ⟨rfl, -⟩ := List.cons.inj hrest
          exact absurd (by simp) hbreak
    have hnone : output.lines = [] := by
      refine eq_nil_iff_forall_not_mem.mpr fun line hmem => hbreak ?_
      apply h.isEnd.subset
      rw [content, mem_append, mem_flatMap]
      exact .inl ⟨line, hmem, by simp⟩
    have hcontent : output.content = output.partialLine := by
      rw [content, hnone]
      rfl
    refine .inr ⟨hnone, output.partialLine ++ middle, by simp, ?_, ?_⟩
    · rw [← hcontent]
      exact suffix_append_self_iff.mpr h.isEnd
    · have hcut : cutLine (text ++ middle) <:+ text ++ middle :=
        fromBoundary_suffix _ _
      rcases suffix_or_suffix_of_suffix hcut (suffix_append text middle) with
        hshort | ⟨kept, hkept⟩
      · exact hshort.trans (suffix_append _ _)
      · have hle := len_fromBoundary (text ++ middle)
          (len (text ++ middle) + 1 - maxBytes)
        change len (cutLine (text ++ middle)) ≤ _ at hle
        rw [← hkept] at hcut hle ⊢
        have hend : kept <:+ text := suffix_append_self_iff.mp hcut
        have hplain : '\n' ∉ kept := fun hmem => hbreak (hend.subset hmem)
        rw [RustStr.len_append kept] at hle
        rw [suffix_append_self_iff, ← hcontent]
        refine h.keeps kept ⟨hend, .inr (.inr hplain)⟩ ⟨by omega, ?_⟩
        rw [count_eq_zero_of_not_mem hplain]
        exact Nat.zero_le _

theorem Stored.trimmed (h : Stored text output) (hfirst : FirstLine text output)
    (hline : '\n' ∉ output.partialLine) : RecentTail text (trim output) := by
  have htrimmed : Stored text (trim output) := trimLines_stored h
  obtain ⟨hlines, hbytes⟩ := trim_within h.counted
  exact {
    toStored := htrimmed
    first := by
      intro line rest heq hplain hfits
      have hbegun := (hfirst line rest heq hplain hfits).resolve_right ?_
      · exact .inl (trimLines_begun hplain hfits h.counted h.plain hbegun)
      · rintro ⟨-, part, hpart, -⟩
        exact hline (by rw [hpart]; simp)
    unfinished := fun hmem => hline ((trimLines_partialLine _ _ _).subset hmem)
    fewLines := hlines
    fewBytes := by
      rw [len_content, ← htrimmed.counted]
      exact hbytes }

theorem RecentTail.append
    (h : RecentTail text output) (escapes : Escapes) (more : Str) :
    RecentTail (text ++ clean escapes more)
      (appendOutput escapes output more) := by
  rw [appendOutput]
  by_cases hempty : more = []
  · rw [if_pos hempty, hempty]
    change RecentTail (text ++ []) output
    rw [append_nil]
    exact h
  · rw [if_neg hempty]
    obtain ⟨⟨hstored, hfirst⟩, hline⟩ := splitLines_kept
      (h.toStored.push (clean escapes more)) (h.first_push _) (Nat.le_refl _)
    exact hstored.trimmed hfirst hline

theorem RecentTail.start : RecentTail [] .empty where
  counted := rfl
  plain := fun _ hmem => absurd hmem not_mem_nil
  isEnd := suffix_rfl
  keeps := fun _ hline _ => hline.1
  first := by
    intro line rest heq
    exact absurd heq (by simp)
  unfinished := not_mem_nil
  fewLines := Nat.zero_le _
  fewBytes := Nat.zero_le _

/-- Lines and unfinished line can be read off the content. -/
theorem lines_unique {lines' : List Str} {partialLine partialLine' : Str}
    (hplain : ∀ line ∈ lines, '\n' ∉ line)
    (hplain' : ∀ line ∈ lines', '\n' ∉ line)
    (hlast : '\n' ∉ partialLine) (hlast' : '\n' ∉ partialLine')
    (h : lines.flatMap (· ++ ['\n']) ++ partialLine =
      lines'.flatMap (· ++ ['\n']) ++ partialLine') :
    lines = lines' ∧ partialLine = partialLine' := by
  induction lines generalizing lines' with
  | nil =>
    cases lines' with
    | nil => exact ⟨rfl, h⟩
    | cons line' rest' =>
      refine absurd ?_ hlast
      have heq : partialLine = _ := h
      rw [heq]
      simp
  | cons line rest ih =>
    cases lines' with
    | nil =>
      refine absurd ?_ hlast'
      have heq : _ = partialLine' := h
      rw [← heq]
      simp
    | cons line' rest' =>
      simp only [flatMap_cons, append_assoc, cons_append, nil_append] at h
      obtain ⟨hline, hrest⟩ := forall_mem_cons.mp hplain
      obtain ⟨hline', hrest'⟩ := forall_mem_cons.mp hplain'
      obtain ⟨rfl, htail⟩ := first_line_unique hline hline' h
      obtain ⟨rfl, rfl⟩ := ih hrest hrest' htail
      exact ⟨rfl, rfl⟩

theorem RecentTail.fits (h : RecentTail text output) : Fits output.content := by
  refine ⟨h.fewBytes, ?_⟩
  rw [content, count_append, count_lines h.plain,
    count_eq_zero_of_not_mem h.unfinished]
  exact h.fewLines

theorem RecentTail.begun (h : RecentTail text output)
    (htext : text = line ++ '\n' :: rest) (hline : '\n' ∉ line)
    (hfits : Fits rest) :
    (output.content = rest ∧ ¬ Fits (cutLine line ++ '\n' :: rest)) ∨
      output.content = cutLine line ++ '\n' :: rest := by
  rcases h.first line rest htext hline hfits with
    (hrest | ⟨hboth, -⟩) | ⟨-, part, hpart, -⟩
  · exact .inl hrest
  · exact .inr hboth
  · exact absurd (by rw [hpart]; simp) h.unfinished

/-- Where the limits cut no line, the text alone says what is stored. -/
theorem RecentTail.unique {first second : SessionOutput}
    (hfirst : RecentTail text first) (hsecond : RecentTail text second)
    (hcuts : CutsNoLine text) : first = second := by
  have hsame : first.content = second.content := by
    rcases hcuts with ⟨tail, hline, hfits, hlongest⟩ |
      ⟨line, rest, htext, hline, hfits⟩
    · have hcontent : ∀ output, RecentTail text output →
          output.content = tail := by
        intro output h
        have hlong := hlongest output.content h.isEnd h.fits
        exact hlong.eq_of_length_le (h.keeps tail hline hfits).length_le
      exact (hcontent first hfirst).trans (hcontent second hsecond).symm
    · rcases hfirst.begun htext hline hfits with ⟨hrest, hnot⟩ | hboth
      · rcases hsecond.begun htext hline hfits with ⟨hrest', -⟩ | hboth'
        · exact hrest.trans hrest'.symm
        · exact absurd (hboth' ▸ hsecond.fits) hnot
      · rcases hsecond.begun htext hline hfits with ⟨-, hnot⟩ | hboth'
        · exact absurd (hboth ▸ hfirst.fits) hnot
        · exact hboth.trans hboth'.symm
  obtain ⟨hlines, hlast⟩ := lines_unique hfirst.plain hsecond.plain
    hfirst.unfinished hsecond.unfinished hsame
  have hbytes : first.bytes = second.bytes := by
    rw [hfirst.counted, hsecond.counted, hlines]
  obtain ⟨lines, partialLine, bytes⟩ := first
  obtain ⟨lines', partialLine', bytes'⟩ := second
  obtain rfl : lines = lines' := hlines
  obtain rfl : partialLine = partialLine' := hlast
  obtain rfl : bytes = bytes' := hbytes
  rfl

/-! ## Appends -/

variable (calls : List (Str × Str))

/-- The appends of all sessions, in their order. -/
def appendAll : RecentOutputStore :=
  calls.foldl (fun store call => store.append escapes call.1 call.2) store

def textsOf : List Str :=
  (calls.filter (·.1 = sessionId)).map Prod.snd

theorem output_append (text other : Str) :
    (store.append escapes sessionId text).output other =
      if other = sessionId then
        appendOutput escapes (store.output sessionId) text
      else store.output other := by
  by_cases hsession : other = sessionId
  · subst hsession
    rw [if_pos rfl, RecentOutputStore.output, RecentOutputStore.append]
    by_cases hempty : text = []
    · rw [if_pos (.inl hempty), appendOutput, if_pos hempty]
      rfl
    · rw [if_neg fun hor => hor.elim hempty fun hne => hne rfl]
      rfl
  · rw [if_neg hsession, RecentOutputStore.output, RecentOutputStore.append,
      if_pos (.inr hsession)]
    rfl

/-- An append changes the output of its own session alone. -/
theorem output_appendAll :
    (appendAll escapes store calls).output sessionId =
      (textsOf sessionId calls).foldl (appendOutput escapes)
        (store.output sessionId) := by
  induction calls generalizing store with
  | nil => rfl
  | cons call rest ih =>
    rw [appendAll, foldl_cons]
    refine (ih _).trans ?_
    rw [output_append, textsOf, textsOf]
    by_cases hsession : call.1 = sessionId
    · simp [hsession]
    · have hother : sessionId ≠ call.1 := fun heq => hsession heq.symm
      simp [hsession, hother]

theorem RecentTail.appends
    (h : RecentTail text output) (escapes : Escapes) (texts : List Str) :
    RecentTail (text ++ texts.flatMap (clean escapes))
      (texts.foldl (appendOutput escapes) output) := by
  induction texts generalizing text output with
  | nil =>
    rw [flatMap_nil, append_nil]
    exact h
  | cons more rest ih =>
    rw [flatMap_cons, ← append_assoc]
    exact ih (h.append escapes more)

theorem clean_flatten {escapes : Escapes} {texts : List Str}
    (h : escapes.WholeCuts texts) :
    clean escapes texts.flatten = texts.flatMap (clean escapes) := by
  rw [clean, h.stripStr_flatten, filter_flatMap]
  rfl

theorem cutsNoLine_of_fits (h : Fits text) : CutsNoLine text :=
  .inl ⟨text, ⟨suffix_rfl, .inl rfl⟩, h, fun _ hother _ => hother⟩

/-- What the output of a session is to be after its texts: what one append
gives, an end of the clean text within the limits, with the bytes counted. -/
structure TrueTail (escapes : Escapes) (texts : List Str)
    (output : SessionOutput) : Prop where
  sameAsOne : output = appendOutput escapes .empty texts.flatten
  isEnd : output.content <:+ clean escapes texts.flatten
  fewLines : output.lines.length ≤ maxLines
  fewBytes : len output.content ≤ maxBytes
  counted : output.bytes = lineBytes output.lines

/-- Appends that end between escape sequences, of a text in which the limits
cut no line, store its true tail whatever other sessions append. -/
theorem appends_trueTail {escapes : Escapes} {calls : List (Str × Str)}
    {sessionId : Str} (hwhole : escapes.WholeCuts (textsOf sessionId calls))
    (hcuts : CutsNoLine (clean escapes (textsOf sessionId calls).flatten)) :
    TrueTail escapes (textsOf sessionId calls)
      ((appendAll escapes (fun _ => none) calls).output sessionId) := by
  rw [output_appendAll]
  have hall := RecentTail.start.appends escapes (textsOf sessionId calls)
  have hone := RecentTail.start.append escapes
    (textsOf sessionId calls).flatten
  rw [nil_append] at hall hone
  rw [← clean_flatten hwhole] at hall
  exact {
    sameAsOne := hall.unique hone hcuts
    isEnd := hall.isEnd
    fewLines := hall.fewLines
    fewBytes := hall.fewBytes
    counted := hall.counted }

/-! ## Control sequences -/

/-- Parameters and the final character; zero where there is none. -/
def csiTail : Str → Nat
  | [] => 0
  | c :: rest =>
    if ' ' ≤ c ∧ c ≤ '?' then
      if csiTail rest = 0 then 0 else csiTail rest + 1
    else if '@' ≤ c ∧ c ≤ '~' then 1
    else 0

theorem csiTail_le (text : Str) : csiTail text ≤ text.length := by
  induction text with
  | nil => exact Nat.le_refl 0
  | cons c rest ih =>
    rw [csiTail, length_cons]
    split_ifs <;> omega

theorem csiTail_own {other : Str} (hpos : 0 < csiTail text)
    (h : text.take (csiTail text) <+: other) :
    csiTail other = csiTail text := by
  induction text generalizing other with
  | nil => cases hpos
  | cons c rest ih =>
    obtain ⟨more, rfl⟩ := h
    rw [csiTail] at hpos ⊢
    by_cases hparameter : ' ' ≤ c ∧ c ≤ '?'
    · rw [if_pos hparameter] at hpos ⊢
      by_cases hzero : csiTail rest = 0
      · rw [if_pos hzero] at hpos
        cases hpos
      · rw [if_neg hzero, take_succ_cons, cons_append, csiTail,
          if_pos hparameter,
          ih (Nat.pos_of_ne_zero hzero) (prefix_append _ _),
          if_neg hzero]
    · rw [if_neg hparameter] at hpos ⊢
      by_cases hfinal : '@' ≤ c ∧ c ≤ '~'
      · rw [if_pos hfinal, take_succ_cons, cons_append, csiTail,
          if_neg hparameter, if_pos hfinal]
      · rw [if_neg hfinal] at hpos
        cases hpos

def controlLength (text : Str) : Nat :=
  if text.take 2 = ['\x1b', '['] ∧ csiTail (text.drop 2) ≠ 0 then
    csiTail (text.drop 2) + 2
  else 0

theorem controlLength_le (text : Str) : controlLength text ≤ text.length := by
  rw [controlLength]
  by_cases h : text.take 2 = ['\x1b', '['] ∧ csiTail (text.drop 2) ≠ 0
  · rw [if_pos h]
    have hle := csiTail_le (text.drop 2)
    rw [length_drop] at hle
    have hpos := Nat.pos_of_ne_zero h.2
    omega
  · rw [if_neg h]
    exact Nat.zero_le _

theorem controlLength_csi {rest : Str} (h : csiTail rest ≠ 0) :
    controlLength ('\x1b' :: '[' :: rest) = csiTail rest + 2 :=
  if_pos ⟨rfl, h⟩

theorem controlLength_own (text other : Str) (hpos : 0 < controlLength text)
    (h : text.take (controlLength text) <+: other) :
    controlLength other = controlLength text := by
  rw [controlLength] at hpos
  by_cases hbegins : text.take 2 = ['\x1b', '['] ∧ csiTail (text.drop 2) ≠ 0
  · have htext : text = '\x1b' :: '[' :: text.drop 2 := by
      have htogether := take_append_drop 2 text
      rw [hbegins.1] at htogether
      exact htogether.symm
    obtain ⟨-, hzero⟩ := hbegins
    revert hzero h
    generalize text.drop 2 = rest at htext
    subst htext
    intro h hzero
    rw [controlLength_csi hzero] at h ⊢
    obtain ⟨more, rfl⟩ := h
    have hown := csiTail_own (Nat.pos_of_ne_zero hzero)
      (prefix_append (rest.take (csiTail rest)) more)
    have hother := controlLength_csi (hown.symm ▸ hzero)
    rw [hown] at hother
    exact hother
  · rw [if_neg hbegins] at hpos
    cases hpos

/-- The control sequences, from escape and bracket to the final character. -/
def controlSequences : Escapes where
  length := controlLength
  within := controlLength_le
  own := controlLength_own

def recentCalls : List (Str × Str) :=
  [("s".toList, "\x1b[31ma\n".toList), ("t".toList, "x".toList),
    ("s".toList, "b".toList)]

theorem recentCalls_trueTail :
    TrueTail controlSequences (textsOf "s".toList recentCalls)
      ((appendAll controlSequences (fun _ => none) recentCalls).output
        "s".toList) := by
  have hcolour : controlSequences.Whole ['b'] "\x1b[31ma\n".toList :=
    @Escapes.Whole.escape controlSequences ['b'] "\x1b[31m".toList ['a', '\n']
      (by decide) (by decide) (.plain (by decide) (.plain (by decide) .done))
  have hlast : controlSequences.Whole [] ['b'] := .plain (by decide) .done
  exact appends_trueTail ⟨hcolour, hlast, trivial⟩
    (cutsNoLine_of_fits ⟨by decide +kernel, by decide +kernel⟩)

/-- The sequence `\x1b[31m` cut in two stays in the output. -/
theorem cut_sequence_stays :
    ¬ TrueTail controlSequences ["\x1b[3".toList, "1ma".toList]
      ((appendAll controlSequences (fun _ => none)
        [("s".toList, "\x1b[3".toList), ("s".toList, "1ma".toList)]).output
          "s".toList) :=
  fun h => absurd h.sameAsOne (by decide +kernel)

end NiceTerm.Capabilities
