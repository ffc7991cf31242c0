/-
What the output queue cuts out of a text: as many code points as fit into a
number of bytes, and at least one.  The end of a queue's text that is kept when
its terminal goes to sleep is the longest end within the limit exactly if the
limit does not fall inside a character further back in its chunk.
-/
import NiceTerm.Drain.Queue
import NiceTerm.Lib.JsString

namespace NiceTerm.Drain

open JsString List

/-- A text is cut in front of the first code point that does not fit. -/
structure Cut (maxBytes : Nat) (text front back : JsStr) : Prop where
  joined : text = front ++ back
  ne_nil : front ≠ []
  uncut : Uncut front back
  fits : utf8Length front ≤ maxBytes ∨ front = firstChar text
  full : back ≠ [] → maxBytes < utf8Length front + utf8Size (codePoint back)

theorem Cut.length {maxBytes : Nat} {text front back : JsStr}
    (h : Cut maxBytes text front back) :
    utf8Length text = utf8Length front + utf8Length back := by
  rw [h.joined, utf8Length_append_of_uncut h.uncut]

/-- More than the budget is taken only for a first code point. -/
theorem Cut.le {maxBytes : Nat} {text front back : JsStr}
    (h : Cut maxBytes text front back) (hbudget : 0 < maxBytes) :
    utf8Length front ≤ maxBytes + 3 := by
  rcases h.fits with hfits | hfirst
  · omega
  · have htext : text ≠ [] := by
      rw [h.joined]
      exact append_ne_nil_of_left_ne_nil h.ne_nil back
    have hsize := utf8Size_le (codePoint text)
    rw [hfirst, utf8Length_firstChar htext]
    omega

/-- The loop with `bytes` counted already. -/
theorem splitLoop_cuts (maxBytes : Nat) (rest : JsStr) (index bytes : Nat) :
    ∃ front back, rest = front ++ back ∧ Uncut front back ∧
      splitLoop maxBytes rest index bytes =
        (index + front.length, bytes + utf8Length front) ∧
      (back ≠ [] → maxBytes <
        bytes + utf8Length front + utf8Size (codePoint back)) ∧
      (bytes + utf8Length front ≤ maxBytes ∨
        bytes = 0 ∧ front = firstChar rest ∨ front = []) := by
  fun_induction splitLoop maxBytes rest index bytes with
  | case1 index bytes =>
    exact ⟨[], [], rfl, uncut_nil_left _, rfl, fun h => absurd rfl h,
      .inr (.inr rfl)⟩
  | case2 rest index bytes hrest code charBytes hopen =>
    exact ⟨[], rest, rfl, uncut_nil_left _, rfl, fun _ => hopen.2,
      .inr (.inr rfl)⟩
  | case3 rest index bytes hrest code length charBytes hopen hlast =>
    have hbytes : utf8Length (firstChar rest) = charBytes :=
      utf8Length_firstChar hrest
    have hlength : (firstChar rest).length = length := length_firstChar hrest
    refine ⟨firstChar rest, afterFirst rest,
      (firstChar_append_afterFirst rest).symm, uncut_firstChar rest,
      ?_, fun _ => ?_, ?_⟩
    · rw [hlength, hbytes]
    · have hsize := utf8Size_pos (codePoint (afterFirst rest))
      omega
    · by_cases hnone : bytes = 0
      · exact .inr (.inl ⟨hnone, rfl⟩)
      · refine .inl ?_
        have hfits := not_and.mp hopen (Nat.pos_of_ne_zero hnone)
        omega
  | case4 rest index bytes hrest code length charBytes hopen hmore ih =>
    have hbytes : utf8Length (firstChar rest) = charBytes :=
      utf8Length_firstChar hrest
    have hlength : (firstChar rest).length = length := length_firstChar hrest
    have hsize : 0 < charBytes := utf8Size_pos code
    obtain ⟨front, back, hjoined, huncut, hresult, hfull, hfits⟩ := ih
    change afterFirst rest = front ++ back at hjoined
    have hfirst := uncut_firstChar rest
    rw [hjoined] at hfirst
    have hsum : utf8Length (firstChar rest ++ front) =
        charBytes + utf8Length front := by
      rw [← hbytes, utf8Length_append_of_uncut]
      by_cases hnil : front = []
      · rw [hnil]
        exact uncut_nil_right _
      · exact hfirst.of_append_right hnil
    refine ⟨firstChar rest ++ front, back, ?_, ?_, ?_, fun hne => ?_, ?_⟩
    · rw [append_assoc, ← hjoined, firstChar_append_afterFirst]
    · by_cases hnil : front = []
      · rw [hnil, nil_append] at hfirst
        rw [hnil, append_nil]
        exact hfirst
      · exact huncut.append_left hnil _
    · rw [hresult, hsum, length_append, hlength]
      simp only [Nat.add_assoc]
    · have hnext := hfull hne
      omega
    · rcases hfits with hfits | ⟨hnone, -⟩ | rfl
      · exact .inl (by omega)
      · omega
      · refine .inl ?_
        rw [hsum]
        change bytes + (charBytes + 0) ≤ maxBytes
        omega

variable {chunk : QueuedOutputChunk}

/-- The parts of a chunk that does not fit, with the bytes of each. -/
theorem splitOutputChunk_cuts
    (hsized : chunk.Sized) {maxBytes : Nat} (h : maxBytes < chunk.bytes) :
    Cut maxBytes chunk.data (splitOutputChunk chunk maxBytes).1.data
        (splitOutputChunk chunk maxBytes).2.data ∧
      (splitOutputChunk chunk maxBytes).1.Sized ∧
      (splitOutputChunk chunk maxBytes).2.Sized := by
  have htail := (splitOutputChunk_sized hsized maxBytes).2
  have hdata : chunk.data ≠ [] := by
    intro hnil
    rw [QueuedOutputChunk.Sized, hnil] at hsized
    rw [hsized] at h
    exact absurd h (Nat.not_lt_zero _)
  rw [splitOutputChunk, if_neg (Nat.not_le.mpr h)] at htail ⊢
  by_cases hascii : chunk.data.length = chunk.bytes
  · rw [if_pos hascii] at htail ⊢
    have hplain := le_of_eq_length (hsized.symm.trans hascii.symm)
    have hpos := length_pos_of_ne_nil hdata
    have hless : maxBytes ≤ chunk.data.length := by
      rw [hascii]
      exact Nat.le_of_lt h
    rw [Nat.min_eq_left hless] at htail ⊢
    generalize hindex : max 1 maxBytes = index at htail ⊢
    have hlength : (chunk.data.take index).length = index := by
      rw [length_take]
      omega
    have hfront : ∀ unit ∈ chunk.data.take index, unit.toNat ≤ 0x7F :=
      fun unit hmem => hplain unit (mem_of_mem_take hmem)
    have hbytes := utf8Length_of_le hfront
    rw [hlength] at hbytes
    simp only
    refine ⟨⟨(take_append_drop _ _).symm, ?_, uncut_of_le hfront _, ?_,
      fun _ => ?_⟩, hbytes.symm, htail⟩
    · exact ne_nil_of_length_pos (by omega)
    · by_cases hzero : maxBytes = 0
      · refine .inr ?_
        obtain rfl : index = 1 := by omega
        cases hchars : chunk.data with
        | nil => exact absurd hchars hdata
        | cons unit rest =>
          have hunit := hplain unit (by rw [hchars]; exact mem_cons_self)
          rw [firstChar_of_le hunit]
          rfl
      · exact .inl (by omega)
    · have hsize := utf8Size_pos (codePoint (chunk.data.drop index))
      omega
  · rw [if_neg hascii] at htail ⊢
    obtain ⟨front, back, hjoined, huncut, hresult, hfull, hfits⟩ :=
      splitLoop_cuts maxBytes chunk.data 0 0
    have hpos := (splitLoop_pos maxBytes hdata).1
    rw [hresult, Nat.zero_add] at hpos
    have hne : front ≠ [] := ne_nil_of_length_pos hpos
    simp only [hresult, Nat.zero_add, Nat.pos_iff_ne_zero.mp hpos, ↓reduceIte]
      at htail ⊢
    simp only [hjoined, take_left, drop_left] at htail ⊢
    rw [Nat.zero_add] at hfull hfits
    refine ⟨⟨rfl, hne, huncut, ?_, hfull⟩, rfl, htail⟩
    rcases hfits with hfits | ⟨-, hfirst⟩ | hnil
    · exact .inl hfits
    · exact .inr (hjoined ▸ hfirst)
    · exact absurd hnil hne

/-! The end of the text that is kept when its terminal goes to sleep. -/

/-- The loop of `outputQueueToBoundedString`, from the last chunk on. -/
def snapshotParts (maxBytes : Nat) :
    List QueuedOutputChunk → Nat → List JsStr
  | [], _ => []
  | chunk :: older, bytes =>
    if bytes + chunk.bytes ≤ maxBytes then
      chunk.data :: snapshotParts maxBytes older (bytes + chunk.bytes)
    else
      let remaining := maxBytes - bytes
      if 0 < remaining then
        let tail := (splitOutputChunk chunk (chunk.bytes - remaining)).2
        if tail.data.isEmpty then [] else [tail.data]
      else []

def outputQueueToBoundedString (maxBytes : Nat) (queue : OutputQueue) : JsStr :=
  (snapshotParts maxBytes queue.chunks.reverse 0).reverse.flatten

variable (chunks : List QueuedOutputChunk)

def texts : List JsStr :=
  chunks.map QueuedOutputChunk.data

def textOf : JsStr :=
  (texts chunks).flatten

theorem textOf_append (front back : List QueuedOutputChunk) :
    textOf (front ++ back) = textOf front ++ textOf back := by
  rw [textOf, texts, map_append, flatten_append]
  rfl

theorem textOf_cons (chunk : QueuedOutputChunk)
    (rest : List QueuedOutputChunk) :
    textOf (chunk :: rest) = chunk.data ++ textOf rest := rfl

/-- What is kept of the first chunk from the end that does not fit. -/
def keptTail (remaining : Nat) (chunk : QueuedOutputChunk) : JsStr :=
  if remaining = 0 then []
  else (splitOutputChunk chunk (chunk.bytes - remaining)).2.data

/-- Everything is kept, or some chunks and what fits of the one before. -/
theorem snapshotParts_spec {maxBytes bytes : Nat} (h : bytes ≤ maxBytes)
    (chunks : List QueuedOutputChunk) :
    (bytes + total QueuedOutputChunk.bytes chunks ≤ maxBytes ∧
      (snapshotParts maxBytes chunks bytes).reverse.flatten =
        textOf chunks.reverse) ∨
    ∃ newer chunk older, chunks = newer ++ chunk :: older ∧
      bytes + total QueuedOutputChunk.bytes newer ≤ maxBytes ∧
      maxBytes < bytes + total QueuedOutputChunk.bytes newer + chunk.bytes ∧
      (snapshotParts maxBytes chunks bytes).reverse.flatten =
        keptTail (maxBytes - (bytes + total QueuedOutputChunk.bytes newer))
          chunk ++ textOf newer.reverse := by
  induction chunks generalizing bytes with
  | nil => exact .inl ⟨h, rfl⟩
  | cons chunk older ih =>
    rw [snapshotParts]
    by_cases hfits : bytes + chunk.bytes ≤ maxBytes
    · rw [if_pos hfits, reverse_cons, flatten_append,
        reverse_cons, textOf_append]
      rcases ih hfits with ⟨hall, htext⟩ |
        ⟨newer, other, rest, rfl, hnewer, hover, htext⟩
      · refine .inl ⟨?_, ?_⟩
        · rw [total, ← Nat.add_assoc]
          exact hall
        · rw [htext]
          rfl
      · refine .inr ⟨chunk :: newer, other, rest, rfl, ?_, ?_, ?_⟩
        · rw [total, ← Nat.add_assoc]
          exact hnewer
        · rw [total, ← Nat.add_assoc]
          exact hover
        · rw [htext, total, ← Nat.add_assoc, reverse_cons,
            textOf_append, append_assoc]
          rfl
    · rw [if_neg hfits]
      refine .inr ⟨[], chunk, older, rfl, h, Nat.not_le.mp hfits, ?_⟩
      change _ = keptTail (maxBytes - bytes) chunk ++ []
      rw [keptTail, append_nil]
      by_cases hroom : 0 < maxBytes - bytes
      · rw [if_pos hroom, if_neg (Nat.pos_iff_ne_zero.mp hroom)]
        simp only
        split
        · next hempty =>
          rw [List.isEmpty_iff.mp hempty]
          rfl
        · exact flatten_singleton
      · rw [if_neg hroom, if_pos (Nat.eq_zero_of_not_pos hroom)]
        rfl

/-- The chunks carry their byte counts, and characters are whole in them. -/
structure Whole (chunks : List QueuedOutputChunk) : Prop where
  sized : ∀ chunk ∈ chunks, chunk.Sized
  whole : ∀ chunk ∈ chunks, isWellFormed chunk.data = true

theorem Whole.tail {rest : List QueuedOutputChunk} (h : Whole (chunk :: rest)) :
    Whole rest where
  sized other hmem := h.sized other (mem_cons_of_mem chunk hmem)
  whole other hmem := h.whole other (mem_cons_of_mem chunk hmem)

theorem Whole.right {front back : List QueuedOutputChunk}
    (h : Whole (front ++ back)) : Whole back where
  sized other hmem := h.sized other (mem_append_right front hmem)
  whole other hmem := h.whole other (mem_append_right front hmem)

theorem Whole.text {chunks : List QueuedOutputChunk} (h : Whole chunks) :
    isWellFormed (textOf chunks) = true ∧
      utf8Length (textOf chunks) = total QueuedOutputChunk.bytes chunks := by
  induction chunks with
  | nil => exact ⟨rfl, rfl⟩
  | cons chunk rest ih =>
    obtain ⟨hwhole, hbytes⟩ := ih h.tail
    have hfirst := h.whole chunk mem_cons_self
    have hsized : chunk.bytes = utf8Length chunk.data :=
      h.sized chunk mem_cons_self
    rw [textOf_cons, isWellFormed_append hfirst, utf8Length_append hfirst,
      hbytes, total, hsized]
    exact ⟨hwhole, rfl⟩

/-- An end of the text that cuts no character, within the limit. -/
structure BoundedEnd (maxBytes : Nat) (text last : JsStr) : Prop where
  isSuffix : last <:+ text
  whole : isWellFormed last = true
  le : utf8Length last ≤ maxBytes

/-- The longest of them. -/
structure LongestEnd (maxBytes : Nat) (text last : JsStr) : Prop
    extends BoundedEnd maxBytes text last where
  longest : ∀ other, BoundedEnd maxBytes text other →
    other.length ≤ last.length

/-- Counted from the end, the limit falls inside this character. -/
structure Inside (maxBytes : Nat) (text char behind : JsStr) : Prop where
  isSuffix : char ++ behind <:+ text
  isChar : IsChar char
  whole : isWellFormed behind = true
  after : utf8Length behind < maxBytes
  before : maxBytes < utf8Length (char ++ behind)

/-- The limit falls inside a character that is not the first of its chunk. -/
def CutsInside (maxBytes : Nat) (chunks : List JsStr) : Prop :=
  ∃ older front char back newer,
    chunks = older ++ (front ++ char ++ back) :: newer ∧ front ≠ [] ∧
      Inside maxBytes chunks.flatten char (back ++ newer.flatten)

section Ends

variable {maxBytes : Nat} {text last other char behind : JsStr}

theorem utf8Length_suffix (h : last <:+ text)
    (hwhole : isWellFormed last = true) :
    utf8Length last ≤ utf8Length text ∧
      (last.length < text.length → utf8Length last < utf8Length text) := by
  obtain ⟨front, rfl⟩ := h
  have hsum := utf8Length_append_of_uncut (uncut_of_isWellFormed hwhole front)
  refine ⟨by omega, fun hlt => ?_⟩
  have hpos : 0 < utf8Length front := utf8Length_pos (by
    rintro rfl
    exact absurd hlt (Nat.lt_irrefl _))
  omega

section

variable (hsuffix : last <:+ text) (hlast : isWellFormed last = true)
include hsuffix hlast

theorem not_inside (hchar : char ++ behind <:+ text)
    (hone : IsChar char) (hbehind : isWellFormed behind = true) :
    utf8Length last ≤ utf8Length behind ∨
      utf8Length (char ++ behind) ≤ utf8Length last := by
  have hboth : isWellFormed (char ++ behind) = true := by
    rw [isWellFormed_append hone.whole, hbehind]
  rcases suffix_or_suffix_of_suffix hsuffix hchar with h | h
  · obtain ⟨front, hfront⟩ := h
    rcases append_eq_append_iff.mp hfront with
      ⟨part, rfl, rfl⟩ | ⟨part, rfl, rfl⟩
    · by_cases hpart : part = []
      · subst hpart
        exact .inl (Nat.le_refl _)
      · by_cases hnil : front = []
        · subst hnil
          exact .inr (Nat.le_refl _)
        · rw [hone.low_of_append hnil hpart behind] at hlast
          cases hlast
    · refine .inl (utf8Length_suffix (suffix_append _ _) hlast).1
  · exact .inr (utf8Length_suffix h hboth).1

theorem longestEnd_of_eq (heq : utf8Length last = maxBytes) :
    LongestEnd maxBytes text last := by
  refine ⟨⟨hsuffix, hlast, Nat.le_of_eq heq⟩, fun other hother => ?_⟩
  by_contra hlonger
  have hshort := Nat.not_le.mp hlonger
  have hinner := suffix_of_suffix_length_le hsuffix hother.isSuffix
    (Nat.le_of_lt hshort)
  have hless := (utf8Length_suffix hinner hlast).2 hshort
  have hle := hother.le
  omega

theorem not_inside_of_eq (heq : utf8Length last = maxBytes) :
    ¬ Inside maxBytes text char behind := by
  intro h
  have hafter := h.after
  have hbefore := h.before
  rcases not_inside hsuffix hlast h.isSuffix h.isChar h.whole with hle | hle
  · omega
  · omega

end

/-- Behind the character that the limit falls into is the longest end. -/
theorem Inside.longest (h : Inside maxBytes text char behind) :
    LongestEnd maxBytes text behind := by
  have hsuffix : behind <:+ text :=
    (suffix_append char behind).trans h.isSuffix
  refine ⟨⟨hsuffix, h.whole, Nat.le_of_lt h.after⟩, fun other hother => ?_⟩
  by_contra hlonger
  have hshort := Nat.not_le.mp hlonger
  have hinner := suffix_of_suffix_length_le hsuffix hother.isSuffix
    (Nat.le_of_lt hshort)
  have hless := (utf8Length_suffix hinner h.whole).2 hshort
  have hle := hother.le
  have hbefore := h.before
  rcases not_inside hother.isSuffix hother.whole h.isSuffix h.isChar h.whole
    with hin | hin
  · omega
  · omega

section

variable {char' behind' : JsStr} (h : Inside maxBytes text char behind)
    (h' : Inside maxBytes text char' behind')
include h h'

theorem Inside.length_le :
    (char ++ behind).length ≤ (char' ++ behind').length := by
  by_contra hlonger
  have hshort := Nat.not_le.mp hlonger
  have hwhole : isWellFormed (char' ++ behind') = true := by
    rw [isWellFormed_append h'.isChar.whole, h'.whole]
  have hinner := suffix_of_suffix_length_le h'.isSuffix h.isSuffix
    (Nat.le_of_lt hshort)
  have hless := (utf8Length_suffix hinner hwhole).2 hshort
  have hbefore := h'.before
  have hafter := h.after
  rcases not_inside h'.isSuffix hwhole h.isSuffix h.isChar h.whole
    with hin | hin
  · omega
  · omega

theorem Inside.unique :
    char = char' ∧ behind = behind' := by
  have hbehind : behind = behind' := by
    have hlength := Nat.le_antisymm
      (h'.longest.longest behind h.longest.toBoundedEnd)
      (h.longest.longest behind' h'.longest.toBoundedEnd)
    have hsuffix := suffix_of_suffix_length_le
      h.longest.isSuffix h'.longest.isSuffix (Nat.le_of_eq hlength)
    exact hsuffix.eq_of_length hlength
  subst hbehind
  have hle : (char ++ behind).length ≤ (char' ++ behind).length :=
    h.length_le h'
  have hge := h'.length_le h
  have hsuffix := suffix_of_suffix_length_le h.isSuffix h'.isSuffix hle
  have hsame := hsuffix.eq_of_length (Nat.le_antisymm hle hge)
  exact ⟨append_cancel_right hsame, rfl⟩

end

end Ends

/-- A place inside a list of texts is in one of them. -/
theorem place_unique {α : Type} {older older' newer newer' : List (List α)}
    {text front rest : List α}
    (h : older ++ text :: newer = older' ++ (front ++ rest) :: newer')
    (hplace : older.flatten = older'.flatten ++ front) (hrest : rest ≠ []) :
    front = [] := by
  rcases append_eq_append_iff.mp h with
    ⟨more, rfl, -⟩ | ⟨more, rfl, hmore⟩
  · rw [flatten_append, append_assoc] at hplace
    have hnil := self_eq_append_right.mp hplace
    exact (append_eq_nil_iff.mp hnil).2
  · rw [flatten_append] at hplace
    have hfront := append_cancel_left hplace
    cases more with
    | nil => exact hfront.symm
    | cons first more =>
      obtain rfl := (cons.inj hmore).1
      have hlength := congrArg List.length hfront
      rw [flatten_cons, length_append, length_append]
        at hlength
      exact absurd (length_eq_zero_iff.mp (by omega)) hrest

theorem total_reverse :
    total QueuedOutputChunk.bytes chunks.reverse =
      total QueuedOutputChunk.bytes chunks := by
  induction chunks with
  | nil => rfl
  | cons chunk rest ih =>
    rw [reverse_cons, total_append, ih, Nat.add_comm]
    rfl

/-- An end of exactly as many bytes as the limit shows both sides. -/
theorem snapshot_exact {maxBytes : Nat} {chunks : List QueuedOutputChunk}
    {last : JsStr} (hsuffix : last <:+ textOf chunks)
    (hlast : isWellFormed last = true) (heq : utf8Length last = maxBytes) :
    LongestEnd maxBytes (textOf chunks) last ↔
      ¬ CutsInside maxBytes (texts chunks) := by
  refine iff_of_true (longestEnd_of_eq hsuffix hlast heq) ?_
  rintro ⟨older, front, char, back, newer, -, -, hinside⟩
  exact not_inside_of_eq hsuffix hlast heq hinside

/-- A chunk that does not fit is cut behind as many bytes as are too many. -/
theorem snapshot_cut {maxBytes excess : Nat}
    {older newer : List QueuedOutputChunk} {front back : JsStr}
    (h : Whole (older ++ chunk :: newer))
    (hcut : Cut excess chunk.data front back)
    (hexcess : excess + maxBytes =
      chunk.bytes + total QueuedOutputChunk.bytes newer)
    (hpos : 0 < excess) (hover : excess < chunk.bytes) :
    LongestEnd maxBytes (textOf (older ++ chunk :: newer))
        (back ++ textOf newer) ↔
      ¬ CutsInside maxBytes (texts (older ++ chunk :: newer)) := by
  have hchunk : isWellFormed chunk.data = true :=
    h.right.whole chunk mem_cons_self
  have hsized : chunk.bytes = utf8Length chunk.data :=
    h.right.sized chunk mem_cons_self
  obtain ⟨hnewer, hbytes⟩ := h.right.tail.text
  have hlength := hcut.length
  have hdata : chunk.data ≠ [] := by
    rw [hcut.joined]
    exact append_ne_nil_of_left_ne_nil hcut.ne_nil back
  have hparts := hcut.joined ▸ hchunk
  obtain ⟨hfront, hback⟩ := isWellFormed_of_uncut hcut.uncut hparts
  have hlast : isWellFormed (back ++ textOf newer) = true := by
    rw [isWellFormed_append hback, hnewer]
  have hlastBytes : utf8Length (back ++ textOf newer) =
      utf8Length back + total QueuedOutputChunk.bytes newer := by
    rw [utf8Length_append hback, hbytes]
  have hwhole : textOf (older ++ chunk :: newer) =
      textOf older ++ front ++ (back ++ textOf newer) := by
    rw [textOf_append, textOf_cons, hcut.joined]
    simp only [append_assoc]
  have hsuffix : back ++ textOf newer <:+ textOf (older ++ chunk :: newer) :=
    ⟨textOf older ++ front, hwhole.symm⟩
  rcases Nat.lt_trichotomy (utf8Length front) excess with hless | heq | hmore
  · -- the next character would have been cut, so too much is kept
    have hbackne : back ≠ [] := by
      rintro rfl
      have hnil : utf8Length [] = 0 := rfl
      omega
    have hnext := hcut.full hbackne
    have hchar := isChar_firstChar hback hbackne
    have hafter := isWellFormed_of_uncut (uncut_firstChar back)
      (by rw [firstChar_append_afterFirst]; exact hback)
    have hbackBytes := utf8Length_append_of_uncut (uncut_firstChar back)
    rw [firstChar_append_afterFirst, utf8Length_firstChar hbackne]
      at hbackBytes
    have hbehind : utf8Length (afterFirst back ++ textOf newer) =
        utf8Length (afterFirst back) +
          total QueuedOutputChunk.bytes newer := by
      rw [utf8Length_append hafter.2, hbytes]
    have hjoined : firstChar back ++ (afterFirst back ++ textOf newer) =
        back ++ textOf newer := by
      rw [← append_assoc, firstChar_append_afterFirst]
    refine iff_of_false (fun hlongest => ?_) (not_not_intro ?_)
    · have hle := hlongest.le
      omega
    · refine ⟨texts older, front, firstChar back, afterFirst back,
        texts newer, ?_, hcut.ne_nil, ?_⟩
      · rw [append_assoc, firstChar_append_afterFirst, ← hcut.joined,
          texts, map_append]
        rfl
      · change Inside maxBytes (textOf _) _ (afterFirst back ++ textOf newer)
        refine ⟨?_, hchar, ?_, ?_, ?_⟩
        · rw [hjoined]
          exact hsuffix
        · rw [isWellFormed_append hafter.2, hnewer]
        · omega
        · rw [hjoined]
          omega
  · exact snapshot_exact hsuffix hlast (by omega)
  · -- the first character alone is over the budget
    have hfirst : front = firstChar chunk.data :=
      hcut.fits.resolve_left (Nat.not_le.mpr hmore)
    have hjoined : utf8Length (front ++ (back ++ textOf newer)) =
        utf8Length front + utf8Length (back ++ textOf newer) :=
      utf8Length_append hfront _
    have hinside : Inside maxBytes (textOf (older ++ chunk :: newer)) front
        (back ++ textOf newer) := by
      refine ⟨⟨textOf older, ?_⟩, hfirst ▸ isChar_firstChar hchunk hdata,
        hlast, by omega, by omega⟩
      rw [hwhole, append_assoc]
    refine iff_of_true hinside.longest ?_
    rintro ⟨olders, before, char, behind, newers, hsame, hne, hcutting⟩
    obtain ⟨rfl, hend⟩ := hcutting.unique hinside
    have hboth : (texts older).flatten ++ (char ++ (back ++ textOf newer)) =
        olders.flatten ++ before ++ (char ++ (back ++ textOf newer)) := by
      calc (texts older).flatten ++ (char ++ (back ++ textOf newer))
        _ = textOf (older ++ chunk :: newer) := by
            rw [hwhole, append_assoc]
            rfl
        _ = (olders ++ (before ++ char ++ behind) :: newers).flatten :=
            congrArg List.flatten hsame
        _ = olders.flatten ++ before ++
              (char ++ (behind ++ newers.flatten)) := by
            rw [flatten_append, flatten_cons]
            simp only [append_assoc]
        _ = _ := by rw [hend]
    have hplace : (texts older).flatten = olders.flatten ++ before :=
      append_cancel_right hboth
    apply hne
    rw [texts, map_append, map_cons, append_assoc] at hsame
    refine place_unique hsame hplace ?_
    exact append_ne_nil_of_left_ne_nil hinside.isChar.ne_nil _

/-- The snapshot of a queue is the longest end within the limit that cuts no
character if and only if the limit does not fall inside a character behind
another one of its chunk. -/
theorem snapshot_longest_iff (maxBytes : Nat) {queue : OutputQueue}
    (h : Whole queue.chunks) :
    LongestEnd maxBytes (textOf queue.chunks)
        (outputQueueToBoundedString maxBytes queue) ↔
      ¬ CutsInside maxBytes (texts queue.chunks) := by
  obtain ⟨hwhole, hbytes⟩ := h.text
  rw [outputQueueToBoundedString]
  rcases snapshotParts_spec (Nat.zero_le maxBytes) queue.chunks.reverse with
    ⟨hall, htext⟩ | ⟨newer, chunk, older, hchunks, hnewer, hover, htext⟩
  · rw [total_reverse, ← hbytes, Nat.zero_add] at hall
    rw [htext, reverse_reverse]
    refine iff_of_true ⟨⟨suffix_rfl, hwhole, hall⟩, fun other hother =>
      hother.isSuffix.length_le⟩ ?_
    rintro ⟨olders, front, char, back, newers, -, -, hinside⟩
    have hbefore := hinside.before
    have hchar : isWellFormed (char ++ (back ++ newers.flatten)) = true := by
      rw [isWellFormed_append hinside.isChar.whole, hinside.whole]
    have hle := (utf8Length_suffix hinside.isSuffix hchar).1
    change _ ≤ utf8Length (textOf queue.chunks) at hle
    omega
  · have hqueue : queue.chunks = older.reverse ++ chunk :: newer.reverse := by
      have hback := congrArg List.reverse hchunks
      simpa using hback
    rw [Nat.zero_add] at hnewer hover htext
    rw [htext, hqueue]
    rw [hqueue] at h
    obtain ⟨hlast, hlastBytes⟩ := h.right.tail.text
    rw [total_reverse] at hlastBytes
    by_cases hzero : maxBytes - total QueuedOutputChunk.bytes newer = 0
    · rw [keptTail, if_pos hzero, nil_append]
      refine snapshot_exact ?_ hlast (by omega)
      rw [textOf_append, textOf_cons, ← append_assoc]
      exact suffix_append _ _
    · rw [keptTail, if_neg hzero]
      have hsized := h.right.sized chunk mem_cons_self
      have hless : chunk.bytes -
          (maxBytes - total QueuedOutputChunk.bytes newer) < chunk.bytes := by
        omega
      obtain ⟨hcut, -, -⟩ := splitOutputChunk_cuts hsized hless
      refine snapshot_cut h hcut ?_ (by omega) hless
      rw [total_reverse]
      omega

/-- One chunk of three characters of two bytes. -/
def accented : OutputQueue where
  chunks := [⟨[0xE9, 0xE9, 0xE9], 6⟩]
  bytes := 6

theorem accented_whole : Whole accented.chunks := by
  constructor
  · intro chunk hmem
    rw [mem_singleton.mp hmem]
    change 6 = utf8Length [0xE9, 0xE9, 0xE9]
    decide
  · intro chunk hmem
    rw [mem_singleton.mp hmem]
    decide

/-- Two of the characters are kept where three bytes are allowed. -/
theorem accented_exceeds : Whole accented.chunks ∧
    outputQueueToBoundedString 3 accented = [0xE9, 0xE9] ∧
      ¬ LongestEnd 3 (textOf accented.chunks)
        (outputQueueToBoundedString 3 accented) := by
  have hresult : outputQueueToBoundedString 3 accented = [0xE9, 0xE9] := by
    decide +kernel
  refine ⟨accented_whole, hresult, fun hlongest => ?_⟩
  have hle := hlongest.le
  rw [hresult] at hle
  exact absurd hle (by decide)

def twoAccented : OutputQueue where
  chunks := [⟨[0xE9, 0xE9], 4⟩, ⟨[97, 0xE9], 3⟩]
  bytes := 7

theorem twoAccented_whole : Whole twoAccented.chunks := by
  constructor <;> intro chunk hmem <;>
    simp only [twoAccented, mem_cons, not_mem_nil, or_false] at hmem <;>
    rcases hmem with rfl | rfl
  · change 4 = utf8Length [0xE9, 0xE9]
    decide
  · change 3 = utf8Length [97, 0xE9]
    decide
  · decide
  · decide

/-- Five bytes reach back to the middle of the first chunk. -/
theorem accented_snapshot :
    LongestEnd 5 (textOf twoAccented.chunks)
        (outputQueueToBoundedString 5 twoAccented) ∧
      outputQueueToBoundedString 5 twoAccented = [0xE9, 97, 0xE9] := by
  refine ⟨(snapshot_longest_iff 5 twoAccented_whole).mpr ?_, by decide +kernel⟩
  rintro ⟨older, front, char, back, newer, -, -, hinside⟩
  have hend : [0xE9, 97, 0xE9] <:+ textOf twoAccented.chunks := ⟨[0xE9], rfl⟩
  exact not_inside_of_eq hend (by decide) (by decide) hinside

end NiceTerm.Drain
