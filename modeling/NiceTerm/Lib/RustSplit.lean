/-
Splitting, trimming and searching of strings.
-/
import Mathlib.Data.List.TakeWhile
import NiceTerm.Lib.RustStr

namespace RustStr

open List Option

/-- A line without the carriage return that may end it. -/
def stripCarriageReturn (line : Str) : Str :=
  if line.getLast? = some '\r' then line.dropLast else line

/-- A newline ends a line; what is behind the last one is a line if it is not
empty, and keeps its carriage return. -/
def lines (text : Str) : List Str :=
  let pieces := text.splitOn '\n'
  pieces.dropLast.map stripCarriageReturn ++
    pieces.getLast?.toList.filter fun piece => !piece.isEmpty

def splitWhitespace (text : Str) : List Str :=
  (text.splitOnP isWhitespace).filter fun piece => !piece.isEmpty

example : lines "a\nb\r\n\nc\r".toList =
    ["a".toList, "b".toList, [], "c\r".toList] := by decide

example : splitWhitespace " a\tbc  d ".toList =
    ["a".toList, "bc".toList, "d".toList] := by decide

/-- `str::trim_start_matches`, `str::trim_matches` and `str::trim_end_matches`
at one character. -/
def trimStartMatches (c : Char) (text : Str) : Str :=
  text.dropWhile (· == c)

def trimMatches (c : Char) (text : Str) : Str :=
  ((text.dropWhile (· == c)).reverse.dropWhile (· == c)).reverse

def trimEndMatches (c : Char) (text : Str) : Str :=
  (text.reverse.dropWhile (· == c)).reverse

/-- `str::trim_start` and `str::trim_end`. -/
def trimStart (text : Str) : Str :=
  text.dropWhile isWhitespace

def trimEnd (text : Str) : Str :=
  (text.reverse.dropWhile isWhitespace).reverse

/-- The index at which an iterator from the back first finds such an item. -/
def rposition {α : Type} (p : α → Bool) : List α → Option Nat
  | [] => none
  | a :: rest =>
    match rposition p rest with
    | some i => some (i + 1)
    | none => if p a then some 0 else none

/-- `str::rfind`, as the number of characters before the last occurrence. -/
def rfind (needle : Str) : Str → Option Nat
  | [] => if needle.isEmpty then some 0 else none
  | c :: rest =>
    match rfind needle rest with
    | some i => some (i + 1)
    | none => if needle.isPrefixOf (c :: rest) then some 0 else none

/-- `str::find`, as the number of characters before the first occurrence. -/
def find (needle : Str) : Str → Option Nat
  | [] => if needle.isEmpty then some 0 else none
  | c :: rest =>
    if needle.isPrefixOf (c :: rest) then some 0
    else (find needle rest).map (· + 1)

/-- `u8::is_ascii_whitespace`. -/
def isAsciiWhitespace (c : Char) : Bool :=
  c == ' ' || c == '\t' || c == '\n' || c == '\x0c' || c == '\r'

/-- `str::parse::<u16>`, `none` for its errors. -/
def parseU16 (text : Str) : Option Nat :=
  let digits :=
    match text with
    | '+' :: digits => digits
    | digits => digits
  if digits.isEmpty then none
  else (parseDigits 0 digits).filter fun value => value < 65536

/-- `str::parse::<usize>` on a machine of 64 bits, `none` for its errors. -/
def parseUsize (text : Str) : Option Nat :=
  let digits :=
    match text with
    | '+' :: digits => digits
    | digits => digits
  if digits.isEmpty then none
  else
    (parseDigits 0 digits).filter fun value => value < 18446744073709551616

/-- `str::split_once` at one character. -/
def splitOnce (separator : Char) : Str → Option (Str × Str)
  | [] => none
  | c :: rest =>
    if c = separator then some ([], rest)
    else (splitOnce separator rest).map fun found => (c :: found.1, found.2)

/-- `str::strip_prefix`. -/
def stripPrefix (front text : Str) : Option Str :=
  if front.isPrefixOf text then some (text.drop front.length) else none

def dropPlus : Str → Str
  | '+' :: digits => digits
  | digits => digits

/-- `str::parse` of an unsigned number below a bound, `none` for its errors. -/
def parseUnsigned (bound : Nat) (text : Str) : Option Nat :=
  if (dropPlus text).isEmpty then none
  else (parseDigits 0 (dropPlus text)).filter fun value => value < bound

variable (p : Char → Bool)

/-- Both trimmings cut off a part in front and a part at the end. -/
theorem trimBoth_eq (text : Str) :
    ∃ front back, text = front ++
        ((text.dropWhile p).reverse.dropWhile p).reverse ++ back ∧
      (∀ c ∈ front, p c = true) ∧ ∀ c ∈ back, p c = true := by
  refine ⟨text.takeWhile p, ((text.dropWhile p).reverse.takeWhile p).reverse,
    ?_, fun c hmem => mem_takeWhile_imp hmem, fun c hmem => ?_⟩
  · rw [append_assoc, ← reverse_append, takeWhile_append_dropWhile,
      reverse_reverse, takeWhile_append_dropWhile]
  · exact mem_takeWhile_imp (mem_reverse.mp hmem)

variable {text : Str}

/-- Nothing is trimmed from a text that neither begins nor ends with what is
trimmed. -/
theorem trimBoth_of_ends (hfirst : ∀ c, text.head? = some c → p c = false)
    (hlast : ∀ c, text.getLast? = some c → p c = false) :
    ((text.dropWhile p).reverse.dropWhile p).reverse = text := by
  have hkeep : ∀ {l : Str}, (∀ c, l.head? = some c → p c = false) →
      l.dropWhile p = l := by
    intro l hl
    cases l with
    | nil => rfl
    | cons c rest => rw [dropWhile_cons_of_neg]; simp [hl c rfl]
  rw [hkeep hfirst, hkeep (by simpa using hlast), reverse_reverse]

variable {c : Char}

theorem head_trimBoth
    (h : (((text.dropWhile p).reverse.dropWhile p).reverse).head? = some c) :
    p c = false := by
  obtain ⟨back, hback⟩ : ∃ back, text.dropWhile p =
      ((text.dropWhile p).reverse.dropWhile p).reverse ++ back := by
    refine ⟨((text.dropWhile p).reverse.takeWhile p).reverse, ?_⟩
    rw [← reverse_append, takeWhile_append_dropWhile, reverse_reverse]
  have hhead : (text.dropWhile p).head? = some c := by
    rw [hback, head?_append, h]
    rfl
  have hnot := head?_dropWhile_not p text
  rw [hhead] at hnot
  simpa using hnot

theorem last_trimBoth
    (h : (((text.dropWhile p).reverse.dropWhile p).reverse).getLast? = some c) :
    p c = false := by
  rw [getLast?_reverse] at h
  have hnot := head?_dropWhile_not p (text.dropWhile p).reverse
  rw [h] at hnot
  simpa using hnot

@[simp] theorem trim_trim (text : Str) : trim (trim text) = trim text :=
  trimBoth_of_ends isWhitespace (fun _ => head_trimBoth isWhitespace)
    (fun _ => last_trimBoth isWhitespace)

theorem head_trim (h : (trim text).head? = some c) :
    isWhitespace c = false := head_trimBoth isWhitespace h

theorem last_trim (h : (trim text).getLast? = some c) :
    isWhitespace c = false := last_trimBoth isWhitespace h

/-- Exactly the white space around a text is trimmed. -/
theorem trim_surrounded {front back : Str}
    (hfront : ∀ c ∈ front, isWhitespace c = true)
    (hback : ∀ c ∈ back, isWhitespace c = true)
    (hfirst : ∀ c, text.head? = some c → isWhitespace c = false)
    (hlast : ∀ c, text.getLast? = some c → isWhitespace c = false) :
    trim (front ++ text ++ back) = text := by
  rw [append_assoc, trim_append_of_whitespace hfront, trim]
  cases text with
  | nil =>
    rw [nil_append, dropWhile_eq_nil_iff.mpr hback]
    rfl
  | cons c text =>
    rw [cons_append, dropWhile_cons_of_neg
      (by rw [hfirst c rfl]; exact Bool.false_ne_true), ← cons_append,
      reverse_append, dropWhile_append_of_pos
      fun d hd => hback d (mem_reverse.mp hd)]
    have hhead : ∀ d, (c :: text).reverse.head? = some d →
        isWhitespace d = false := by
      rw [head?_reverse]
      exact hlast
    cases hreverse : (c :: text).reverse with
    | nil =>
      exact absurd (reverse_eq_nil_iff.mp hreverse) (cons_ne_nil c text)
    | cons d rest =>
      rw [hreverse] at hhead
      rw [dropWhile_cons_of_neg
        (by rw [hhead d rfl]; exact Bool.false_ne_true), ← hreverse,
        reverse_reverse]

/-- Between two texts that are not blank nothing is trimmed. -/
theorem trim_append {front back : Str} (middle : Str)
    (hfront : trim front ≠ []) (hback : trim back ≠ []) :
    ∃ before after, (∀ c ∈ before, isWhitespace c = true) ∧
      (∀ c ∈ after, isWhitespace c = true) ∧ trim (front ++ middle ++ back) =
        trim front ++ (before ++ middle ++ after) ++ trim back := by
  obtain ⟨f₁, before, hf, hf₁, hbefore⟩ := trimBoth_eq isWhitespace front
  obtain ⟨after, k₂, hb, hafter, hk₂⟩ := trimBoth_eq isWhitespace back
  refine ⟨before, after, hbefore, hafter, ?_⟩
  have heq : front ++ middle ++ back = f₁ ++
      (trim front ++ (before ++ middle ++ after) ++ trim back) ++ k₂ := by
    conv => lhs; rw [hf, hb]
    simp only [trim, append_assoc]
  rw [heq]
  refine trim_surrounded hf₁ hk₂ (fun c hc => ?_) fun c hc => ?_
  · rw [append_assoc, head?_append_of_ne_nil _ hfront] at hc
    exact head_trim hc
  · rw [getLast?_append_of_ne_nil _ hback] at hc
    exact last_trim hc

/-- Trimming commutes with a change of the characters that leaves white space
what it is. -/
theorem trim_map {f : Char → Char}
    (h : ∀ c ∈ text, isWhitespace (f c) = isWhitespace c) :
    trim (text.map f) = (trim text).map f := by
  obtain ⟨front, back, heq, hfront, hback⟩ := trimBoth_eq isWhitespace text
  change text = front ++ trim text ++ back at heq
  have hmem : ∀ c, c ∈ front ∨ c ∈ trim text ∨ c ∈ back →
      isWhitespace (f c) = isWhitespace c := by
    intro c hc
    refine h c ?_
    rw [heq, mem_append, mem_append]
    rcases hc with hc | hc | hc
    · exact .inl (.inl hc)
    · exact .inl (.inr hc)
    · exact .inr hc
  conv => lhs; rw [heq, map_append, map_append]
  refine trim_surrounded ?_ ?_ ?_ ?_
  · intro d hd
    obtain ⟨c, hc, rfl⟩ := mem_map.mp hd
    exact (hmem c (.inl hc)).trans (hfront c hc)
  · intro d hd
    obtain ⟨c, hc, rfl⟩ := mem_map.mp hd
    exact (hmem c (.inr (.inr hc))).trans (hback c hc)
  · intro d hd
    rw [head?_map, Option.map_eq_some_iff] at hd
    obtain ⟨c, hc, rfl⟩ := hd
    exact (hmem c (.inr (.inl (mem_of_head? hc)))).trans (head_trim hc)
  · intro d hd
    rw [getLast?_map, Option.map_eq_some_iff] at hd
    obtain ⟨c, hc, rfl⟩ := hd
    exact (hmem c (.inr (.inl (mem_of_getLast? hc)))).trans (last_trim hc)

/-- A text that is not white space at its ends is kept in front of anything. -/
theorem trim_append_right {front : Str} (hne : front ≠ [])
    (htrim : trim front = front) (back : Str) :
    ∃ rest, trim (front ++ back) = front ++ rest := by
  by_cases hback : trim back = []
  · obtain ⟨f, b, heq, hf, hb⟩ := trimBoth_eq isWhitespace back
    change back = f ++ trim back ++ b at heq
    rw [hback, append_nil] at heq
    refine ⟨[], ?_⟩
    rw [heq, append_nil, ← nil_append front]
    refine trim_surrounded (fun _ h => absurd h not_mem_nil) ?_
      (fun c hc => head_trim (htrim.symm ▸ hc))
      fun c hc => last_trim (htrim.symm ▸ hc)
    intro c hc
    exact (mem_append.mp hc).elim (hf c) (hb c)
  · obtain ⟨before, after, -, -, heq⟩ :=
      trim_append [] (htrim.symm ▸ hne) hback
    rw [append_nil] at heq
    exact ⟨_, by rw [heq, htrim, append_assoc]⟩

theorem mem_of_mem_trim (h : c ∈ trim text) : c ∈ text := by
  rw [trim, mem_reverse] at h
  have hinner := (dropWhile_sublist _).subset h
  rw [mem_reverse] at hinner
  exact (dropWhile_sublist _).subset hinner

theorem eq_false_of_mem_splitOnP {p : Char → Bool} {piece : Str}
    (h : piece ∈ text.splitOnP p) : ∀ c ∈ piece, p c = false := by
  induction text generalizing piece with
  | nil =>
    rw [splitOnP_nil, mem_singleton] at h
    rw [h]
    exact fun _ hc => absurd hc not_mem_nil
  | cons c rest ih =>
    rw [splitOnP_cons_eq_if_modifyHead] at h
    split at h
    · rcases mem_cons.mp h with rfl | hrest
      · exact fun _ hc => absurd hc not_mem_nil
      · exact ih hrest
    · rename_i hc
      cases hpieces : rest.splitOnP p with
      | nil => exact absurd hpieces (splitOnP_ne_nil p rest)
      | cons first others =>
        rw [hpieces] at h ih
        rcases mem_cons.mp h with rfl | hother
        · rw [forall_mem_cons]
          exact ⟨Bool.eq_false_iff.mpr hc, ih mem_cons_self⟩
        · exact ih (mem_cons_of_mem _ hother)

/-- The first piece begins the text, and the others stand in it. -/
theorem splitOnP_pieces {p : Char → Bool} {first : Str}
    {others : List Str} (h : text.splitOnP p = first :: others) :
    first <+: text ∧ ∀ piece ∈ others, piece <:+: text := by
  induction text generalizing first others with
  | nil =>
    rw [splitOnP_nil, cons.injEq] at h
    rw [← h.1, ← h.2]
    exact ⟨prefix_rfl, fun _ hmem => absurd hmem not_mem_nil⟩
  | cons c rest ih =>
    rw [splitOnP_cons_eq_if_modifyHead] at h
    cases hpieces : rest.splitOnP p with
    | nil => exact absurd hpieces (splitOnP_ne_nil p rest)
    | cons head tail =>
      obtain ⟨hhead, htail⟩ := ih hpieces
      have hrest : rest <:+: c :: rest := (suffix_cons c rest).isInfix
      rw [hpieces] at h
      split at h
      · obtain ⟨rfl, rfl⟩ := cons.inj h
        refine ⟨List.nil_prefix, fun piece hmem => ?_⟩
        rcases mem_cons.mp hmem with rfl | hmem
        · exact hhead.isInfix.trans hrest
        · exact (htail piece hmem).trans hrest
      · obtain ⟨rfl, rfl⟩ := cons.inj h
        exact ⟨(prefix_cons_inj c).mpr hhead,
          fun piece hmem => (htail piece hmem).trans hrest⟩

theorem infix_of_mem_splitWhitespace {piece : Str}
    (h : piece ∈ splitWhitespace text) : piece <:+: text := by
  have hmem : piece ∈ text.splitOnP isWhitespace := mem_of_mem_filter h
  cases hpieces : text.splitOnP isWhitespace with
  | nil => exact absurd hpieces (splitOnP_ne_nil _ text)
  | cons first others =>
    obtain ⟨hfirst, hothers⟩ := splitOnP_pieces hpieces
    rw [hpieces] at hmem
    rcases mem_cons.mp hmem with rfl | hmem
    · exact hfirst.isInfix
    · exact hothers piece hmem

theorem flatten_splitOnP (text : Str) :
    (text.splitOnP p).flatten = text.filter fun c => !p c := by
  induction text with
  | nil => rfl
  | cons c rest ih =>
    rw [splitOnP_cons_eq_if_modifyHead]
    cases hc : p c with
    | true => simp [hc, ih]
    | false =>
      simp only [Bool.false_eq_true, ↓reduceIte, hc, Bool.not_false,
        filter_cons_of_pos, ← ih]
      cases hpieces : rest.splitOnP p with
      | nil => exact absurd hpieces (splitOnP_ne_nil p rest)
      | cons first others => rfl

theorem flatten_splitWhitespace (text : Str) :
    (splitWhitespace text).flatten = text.filter fun c => !isWhitespace c := by
  rw [splitWhitespace, flatten_filter_not_isEmpty, flatten_splitOnP]

theorem splitOnP_congr {p q : Char → Bool} (h : ∀ c ∈ text, p c = q c) :
    text.splitOnP p = text.splitOnP q := by
  induction text with
  | nil => rfl
  | cons c rest ih =>
    obtain ⟨hc, hrest⟩ := forall_mem_cons.mp h
    rw [splitOnP_cons_eq_if_modifyHead, splitOnP_cons_eq_if_modifyHead, hc,
      ih hrest]

/-- White space around a text is not part of its words. -/
theorem splitWhitespace_surrounded {front back : Str}
    (hfront : ∀ c ∈ front, isWhitespace c = true)
    (hback : ∀ c ∈ back, isWhitespace c = true) :
    splitWhitespace (front ++ text ++ back) = splitWhitespace text := by
  have hend : splitWhitespace (text ++ back) = splitWhitespace text := by
    cases back with
    | nil => rw [append_nil]
    | cons c rest =>
      obtain ⟨hc, hrest⟩ := forall_mem_cons.mp hback
      have hempty : splitWhitespace rest = [] := by
        refine eq_nil_iff_forall_not_mem.mpr fun piece hpiece => ?_
        have hflat := flatten_splitWhitespace rest
        rw [filter_eq_nil_iff.mpr fun d hd => by simp [hrest d hd],
          flatten_eq_nil_iff] at hflat
        have hne := (mem_filter.mp hpiece).2
        rw [hflat piece hpiece] at hne
        exact Bool.false_ne_true hne
      rw [splitWhitespace, splitOnP_append_cons _ _ hc, filter_append]
      change splitWhitespace text ++ splitWhitespace rest = _
      rw [hempty, append_nil]
  induction front with
  | nil => exact hend
  | cons c rest ih =>
    obtain ⟨hc, hrest⟩ := forall_mem_cons.mp hfront
    rw [← ih hrest, cons_append, cons_append, splitWhitespace,
      splitOnP_cons_eq_if_modifyHead, if_pos hc]
    rfl

theorem splitWhitespace_trim (text : Str) :
    splitWhitespace (trim text) = splitWhitespace text := by
  obtain ⟨front, back, htext, hfront, hback⟩ := trimBoth_eq isWhitespace text
  conv => rhs; rw [htext]
  exact (splitWhitespace_surrounded hfront hback).symm

/-- A text that begins with no white space begins with its first word. -/
theorem head_splitWhitespace
    (h : ∀ c, text.head? = some c → isWhitespace c = false) :
    (splitWhitespace text).head?.bind List.head? = text.head? := by
  cases text with
  | nil => rfl
  | cons c rest =>
    rw [splitWhitespace, splitOnP_cons_eq_if_modifyHead, h c rfl]
    cases hpieces : rest.splitOnP isWhitespace with
    | nil => exact absurd hpieces (splitOnP_ne_nil _ rest)
    | cons first others => rfl

theorem not_mem_of_mem_splitOn {separator : Char} {piece : Str}
    (h : piece ∈ text.splitOn separator) : separator ∉ piece := by
  rw [splitOn_eq_splitOnP] at h
  intro hmem
  simpa using eq_false_of_mem_splitOnP h separator hmem

/-- A text that a newline ends gives its lines by itself. -/
theorem lines_append_newline (text rest : Str) :
    lines (text ++ '\n' :: rest) =
      (text.splitOn '\n').map stripCarriageReturn ++ lines rest := by
  have hne : rest.splitOn '\n' ≠ [] := splitOn_ne_nil '\n' rest
  rw [lines, lines, splitOn_append_cons_self]
  simp only [dropLast_append_of_ne_nil hne, map_append,
    getLast?_append_of_ne_nil _ hne, append_assoc]

theorem lines_nil : lines [] = [] := rfl

theorem find_eq_none {needle : Str} (hne : needle ≠ []) :
    find needle text = none ↔ ¬ needle <:+: text := by
  induction text with
  | nil => simp [find, hne]
  | cons c rest ih =>
    rw [find, infix_cons_iff, not_or, ← ih, ← isPrefixOf_iff_prefix]
    by_cases hstart : needle.isPrefixOf (c :: rest) = true
    · simp [hstart]
    · simp [hstart]

/-- The first occurrence is found, and it is where the needle first begins. -/
theorem find_eq_some {needle : Str} {n : Nat} (h : find needle text = some n) :
    text = text.take n ++ needle ++ text.drop (n + needle.length) ∧
      ∀ before after, text = before ++ needle ++ after →
        n ≤ before.length := by
  induction text generalizing n with
  | nil =>
    simp only [find, List.isEmpty_iff] at h
    split at h
    next hnil =>
      obtain rfl := some.inj h
      subst hnil
      exact ⟨rfl, fun _ _ _ => Nat.zero_le _⟩
    next => exact absurd h.symm (some_ne_none n)
  | cons c rest ih =>
    rw [find] at h
    split at h
    next hstart =>
      obtain rfl := some.inj h
      obtain ⟨back, hback⟩ := isPrefixOf_iff_prefix.mp hstart
      refine ⟨?_, fun _ _ _ => Nat.zero_le _⟩
      rw [← hback]
      simp
    next hstart =>
      obtain ⟨m, hm, rfl⟩ := map_eq_some_iff.mp h
      obtain ⟨hrest, hleast⟩ := ih hm
      have hlength : m + 1 + needle.length = m + needle.length + 1 := by omega
      refine ⟨?_, fun before after htext => ?_⟩
      · rw [take_succ_cons, hlength, drop_succ_cons,
          cons_append, cons_append, ← hrest]
      · cases before with
        | nil =>
          rw [nil_append] at htext
          exact absurd (List.isPrefixOf_iff_prefix.mpr
            ⟨after, htext.symm⟩) hstart
        | cons d before =>
          rw [cons_append, cons_append] at htext
          exact Nat.succ_le_succ (hleast before after (cons.inj htext).2)

theorem rfind_eq_none {needle : Str} (hne : needle ≠ []) :
    rfind needle text = none ↔ ¬ needle <:+: text := by
  induction text with
  | nil => simp [rfind, hne]
  | cons c rest ih =>
    rw [rfind, infix_cons_iff, not_or, ← ih, ← isPrefixOf_iff_prefix]
    cases hrest : rfind needle rest with
    | some i => simp
    | none => by_cases hp : needle.isPrefixOf (c :: rest) <;> simp [hp]

theorem rposition_eq_none {α : Type} {p : α → Bool} {items : List α} :
    rposition p items = none ↔ ∀ a ∈ items, p a = false := by
  induction items with
  | nil => simp [rposition]
  | cons a rest ih =>
    rw [forall_mem_cons, ← ih, rposition]
    cases rposition p rest with
    | some i => simp
    | none => cases p a <;> simp

/-- Behind the last such item there are only others. -/
theorem take_rposition {α : Type} {p : α → Bool} {items : List α} {i : Nat}
    (h : rposition p items = some i) :
    items.take (i + 1) = (items.reverse.dropWhile fun a => !p a).reverse := by
  induction items generalizing i with
  | nil => exact absurd h (some_ne_none i).symm
  | cons a rest ih =>
    rw [reverse_cons, dropWhile_append]
    rw [rposition] at h
    cases hrest : rposition p rest with
    | some j =>
      rw [hrest, some.injEq] at h
      subst h
      have htake := ih hrest
      have hne : (rest.reverse.dropWhile fun a => !p a).isEmpty = false := by
        rw [isEmpty_eq_false_iff]
        intro hnil
        rw [dropWhile_eq_nil_iff] at hnil
        have hnone : rposition p rest = none := by
          rw [rposition_eq_none]
          intro b hb
          simpa using hnil b (mem_reverse.mpr hb)
        exact absurd (hnone.symm.trans hrest) (some_ne_none j).symm
      rw [hne, if_neg Bool.false_ne_true, take_succ_cons, htake]
      simp
    | none =>
      rw [hrest] at h
      cases ha : p a with
      | false =>
        rw [ha, if_neg Bool.false_ne_true] at h
        exact absurd h (some_ne_none i).symm
      | true =>
        rw [ha, if_pos rfl, some.injEq] at h
        have hnil : (rest.reverse.dropWhile fun a => !p a) = [] := by
          rw [dropWhile_eq_nil_iff]
          intro b hb
          rw [rposition_eq_none.mp hrest b (mem_reverse.mp hb)]
          rfl
        rw [← h, hnil]
        simp [ha]

/-- The occurrence is found if none begins behind its first character. -/
theorem rfind_append {needle : Str} {n : Char} (front back : Str)
    (h : ¬ (n :: needle) <:+: needle ++ back) :
    rfind (n :: needle) (front ++ (n :: needle) ++ back) =
      some front.length := by
  induction front with
  | nil =>
    have hnone := (rfind_eq_none (cons_ne_nil n needle)).mpr h
    have hfront : (n :: needle).isPrefixOf (n :: (needle ++ back)) = true :=
      isPrefixOf_iff_prefix.mpr (prefix_append _ _)
    rw [nil_append, cons_append, rfind, hnone]
    simp only [hfront, ↓reduceIte, length_nil]
  | cons c front ih => rw [cons_append, cons_append, rfind, ih]; rfl

theorem fromUtf8_utf8 (text : Str) : fromUtf8 (utf8 text) = some text := by
  have hbytes : (⟨(utf8 text).toArray⟩ : ByteArray) =
      (String.ofList text).toByteArray := by
    rw [String.toByteArray_ofList]
    exact ByteArray.ext data_toByteArray.symm
  have hstring : String.fromUTF8? (String.ofList text).toByteArray =
      some (String.ofList text) :=
    dif_pos (String.ofList text).isValidUTF8
  rw [fromUtf8, hbytes, hstring, map_some, String.toList_ofList]

/-- `as_bytes` has `len` bytes. -/
theorem length_utf8 (text : Str) : (utf8 text).length = len text := by
  induction text with
  | nil => rfl
  | cons c rest ih =>
    rw [utf8, flatMap_cons, length_append,
      String.length_utf8EncodeChar, len_cons, ← ih]
    rfl

/-- The bytes before a boundary are those of the characters before it. -/
theorem utf8_take {n : Nat} (h : isCharBoundary text n = true) :
    (utf8 text).take n = utf8 (splitAt text n).1 := by
  have hlength : (utf8 (splitAt text n).1).length = n := by
    rw [length_utf8, len_splitAt h]
  have htext : utf8 text =
      utf8 (splitAt text n).1 ++ utf8 (splitAt text n).2 := by
    rw [utf8, utf8, utf8, ← flatMap_append, splitAt_append]
  rw [htext, take_left' hlength]

theorem isPrefix_of_len_le {front longer : Str} (hfront : front <+: text)
    (hlonger : longer <+: text) (hlen : len front ≤ len longer) :
    front <+: longer := by
  rcases prefix_or_prefix_of_prefix hfront hlonger with h | ⟨more, rfl⟩
  · exact h
  · cases more with
    | nil => exact ⟨[], by rw [append_nil, append_nil]⟩
    | cons c cs =>
      rw [len_append] at hlen
      have hpos := len_pos_of_ne_nil (cons_ne_nil c cs)
      omega

theorem splitOnce_append {separator : Char} {front : Str}
    (h : separator ∉ front) (back : Str) :
    splitOnce separator (front ++ separator :: back) = some (front, back) := by
  induction front with
  | nil => rw [nil_append, splitOnce, if_pos rfl]
  | cons c front ih =>
    rw [mem_cons, not_or] at h
    rw [cons_append, splitOnce, if_neg (Ne.symm h.1), ih h.2]
    rfl

theorem splitOnce_eq_none {separator : Char}
    (h : separator ∉ text) : splitOnce separator text = none := by
  induction text with
  | nil => rfl
  | cons c text ih =>
    rw [mem_cons, not_or] at h
    rw [splitOnce, if_neg (Ne.symm h.1), ih h.2]
    rfl

theorem stripPrefix_append (front back : Str) :
    stripPrefix front (front ++ back) = some back := by
  have hstarts : front.isPrefixOf (front ++ back) = true :=
    isPrefixOf_iff_prefix.mpr (prefix_append front back)
  rw [stripPrefix, if_pos hstarts, drop_left]

theorem parseUnsigned_decimal {bound value : Nat} (h : value < bound) :
    parseUnsigned bound (decimal value) = some value := by
  have hplain : dropPlus (decimal value) = decimal value := by
    rw [dropPlus.eq_def]
    split
    · rename_i digits heq
      have hdigit := isAsciiDigit_of_mem_decimal value '+'
        (heq ▸ mem_cons_self)
      exact absurd hdigit (by decide)
    · rfl
  have hne : (decimal value).isEmpty = false :=
    isEmpty_eq_false_iff.mpr (decimal_ne_nil value)
  rw [parseUnsigned, hplain, hne, if_neg Bool.false_ne_true,
    parseDigits_decimal, filter_some, decide_eq_true h, if_pos rfl]

end RustStr
