/-
What the search of the history finds.  It counts occurrences one behind the
other, and takes the first one that it accepts: one that it needs is not lost if
none before it overlaps it, and the copy in lower case has not moved it if the
lower case of each character is as wide.
-/
import NiceTerm.Recording.Search

namespace NiceTerm.Recording

open List LiteralMatcher Occurrences Option RustStr
open RustStr (Str)

theorem first_of_find {needle text : Str} {n : Nat}
    (h : find needle text = some n) :
    First needle text (text.take n) (text.drop (n + needle.length)) := by
  obtain ⟨htext, hleast⟩ := find_eq_some h
  refine ⟨htext, fun b a hat => ?_⟩
  rw [length_take]
  exact Nat.le_trans (Nat.min_le_left _ _) (hleast b a hat)

theorem not_at_of_find {needle text : Str} (hne : needle ≠ [])
    (h : find needle text = none) (b a : Str) :
    ¬ At needle text b a := fun hat =>
  (find_eq_none hne).mp h ⟨b, a, hat.symm⟩

namespace Unicode

variable (unicode : Unicode)

/-- An occurrence behind `passed` that is counted and accepted, the first of
these. -/
structure FirstAccepted (needle : Str) (wholeWord : Bool)
    (passed rest before after : Str) : Prop where
  counted : Counted needle rest before after
  accepted : unicode.accepts wholeWord (passed ++ before) after = true
  least : ∀ b a, Counted needle rest b a →
    unicode.accepts wholeWord (passed ++ b) a = true →
      before.length ≤ b.length

variable {unicode}

/-- Behind a first occurrence that is not accepted, the search begins anew. -/
theorem FirstAccepted.next {needle passed rest before after b a : Str}
    {wholeWord : Bool} (hfirst : First needle rest before after)
    (hrefused : unicode.accepts wholeWord (passed ++ before) after = false)
    (h : unicode.FirstAccepted needle wholeWord (passed ++ before ++ needle)
      after b a) :
    unicode.FirstAccepted needle wholeWord passed rest
      (before ++ needle ++ b) a := by
  refine ⟨.next hfirst h.counted, ?_, ?_⟩
  · have haccepted := h.accepted
    simpa [append_assoc] using haccepted
  · intro c d hcounted haccepted
    rcases (counted_iff hfirst).mp hcounted with ⟨rfl, rfl⟩ | ⟨e, rfl, hrest⟩
    · rw [hrefused] at haccepted
      exact absurd haccepted Bool.false_ne_true
    · have hleast := h.least e d hrest (by
        simpa [append_assoc] using haccepted)
      simpa using hleast

/-- The search returns the first occurrence that is counted and accepted. -/
theorem findLoop_spec (unicode : Unicode) {needle : Str} (hne : needle ≠ [])
    {wholeWord : Bool} (turns : Nat) (passed rest : Str)
    (hturns : rest.length < turns) :
    (unicode.findLoop needle wholeWord turns passed rest = none →
      ∀ b a, Counted needle rest b a →
        unicode.accepts wholeWord (passed ++ b) a = false) ∧
    ∀ start stop, unicode.findLoop needle wholeWord turns passed rest =
          some (start, stop) →
        ∃ before after, unicode.FirstAccepted needle wholeWord passed rest
          before after ∧ start = len (passed ++ before) ∧ stop = start
          + len needle := by
  induction turns generalizing passed rest with
  | zero => exact absurd hturns (Nat.not_lt_zero _)
  | succ turns ih =>
    rw [findLoop]
    cases hfind : find needle rest with
    | none =>
      refine ⟨fun _ b a hcounted => ?_, fun start stop h => ?_⟩
      · exact absurd hcounted (not_counted (not_at_of_find hne hfind))
      · exact absurd h.symm (some_ne_none _)
    | some relative =>
      have hfirst := first_of_find hfind
      dsimp only
      by_cases haccepts : unicode.accepts wholeWord
          (passed ++ rest.take relative)
          (rest.drop (relative + needle.length)) = true
      · rw [if_pos haccepts]
        refine ⟨fun h => absurd h (some_ne_none _), ?_⟩
        intro start stop h
        obtain ⟨rfl, rfl⟩ := Prod.mk.inj (some.inj h)
        refine ⟨_, _, ⟨.first hfirst, haccepts, ?_⟩, rfl, rfl⟩
        intro b a hcounted _
        exact hfirst.least b a hcounted.occurs
      · rw [if_neg haccepts]
        rw [Bool.not_eq_true] at haccepts
        have hshorter :
            (rest.drop (relative + needle.length)).length < turns := by
          have hpos := length_pos_iff.mpr hne
          have hlength := congrArg List.length hfirst.occurs
          simp only [length_append, length_drop] at hlength ⊢
          omega
        obtain ⟨hnone, hsome⟩ := ih
          (passed ++ rest.take relative ++ needle) _ hshorter
        constructor
        · intro h b a hcounted
          rcases (counted_iff hfirst).mp hcounted with
            ⟨rfl, rfl⟩ | ⟨c, rfl, hrest⟩
          · exact haccepts
          · have hrefused := hnone h c a hrest
            simpa [append_assoc] using hrefused
        · intro start stop h
          obtain ⟨before, after, hfound, hstart, hstop⟩ :=
            hsome start stop h
          refine ⟨_, _, hfound.next hfirst haccepts, ?_, hstop⟩
          rw [hstart]
          simp [append_assoc]

theorem findLiteralMatch_spec (unicode : Unicode) {haystack needle : Str}
    (hne : needle ≠ []) {wholeWord : Bool} :
    (unicode.findLiteralMatch haystack needle wholeWord = none →
      ∀ b a, Counted needle haystack b a →
        unicode.accepts wholeWord b a = false) ∧
    ∀ start stop,
      unicode.findLiteralMatch haystack needle wholeWord = some (start, stop) →
        ∃ before after, unicode.FirstAccepted needle wholeWord [] haystack
          before after ∧ start = len before ∧ stop = start + len needle := by
  have hempty : needle.isEmpty = false := by simpa using hne
  rw [findLiteralMatch, if_neg (by simp [hempty])]
  exact findLoop_spec unicode hne (haystack.length + 1) [] haystack
    (Nat.lt_succ_self _)

theorem toLowercase_ne_nil {text : Str} (h : text ≠ []) :
    unicode.toLowercase text ≠ [] := by
  cases text with
  | nil => exact absurd rfl h
  | cons c after =>
    have hfirst : unicode.lowercaseAt [] c after ≠ [] := by
      rw [lowercaseAt]
      split
      · split <;> exact cons_ne_nil _ _
      · exact unicode.lowercase_ne_nil c
    rw [toLowercase, toLowercaseLoop]
    exact append_ne_nil_of_left_ne_nil hfirst _

end Unicode

section Search

variable {unicode : Unicode} {query : Str} {caseSensitive wholeWord : Bool}
  {text : Str}

/-- If an occurrence is a whole word, then one that is a whole word overlaps
none before it. -/
def WordsApart (unicode : Unicode) (needle text : Str) : Prop :=
  ∀ before after, At needle text before after →
    unicode.isWordBoundaryMatch before after = true →
    ∃ b a, At needle text b a ∧ unicode.isWordBoundaryMatch b a = true ∧
      Apart needle text b

/-- It is so for every text where the needle cannot overlap itself. -/
theorem wordsApart_of_unbordered {needle : Str} (h : Unbordered needle)
    (text : Str) : WordsApart unicode needle text :=
  fun before after hat hword => ⟨before, after, hat, hword, hat.apart h⟩

theorem KeepsShape.accepts_map {before after : Str}
    (hbefore : KeepsShape unicode unicode.isWordChar before)
    (hafter : KeepsShape unicode unicode.isWordChar after) :
    unicode.accepts wholeWord (before.map (lowered unicode))
        (after.map (lowered unicode)) =
      unicode.accepts wholeWord before after := by
  have hlast : (before.map (lowered unicode)).getLast?.all
      (fun ch => !unicode.isWordChar ch) =
        before.getLast?.all fun ch => !unicode.isWordChar ch := by
    rw [getLast?_map]
    cases hc : before.getLast? with
    | none => rfl
    | some c =>
      have hword := (hbefore.lowered_eq (mem_of_getLast? hc)).2.2
      simp [hword]
  have hhead : (after.map (lowered unicode)).head?.all
      (fun ch => !unicode.isWordChar ch) =
        after.head?.all fun ch => !unicode.isWordChar ch := by
    rw [head?_map]
    cases hc : after.head? with
    | none => rfl
    | some c =>
      have hword := (hafter.lowered_eq (mem_of_head? hc)).2.2
      simp [hword]
  rw [Unicode.accepts, Unicode.accepts, Unicode.isWordBoundaryMatch,
    Unicode.isWordBoundaryMatch, hlast, hhead]

theorem needle_ne_nil (hquery : query ≠ []) :
    (new unicode query caseSensitive wholeWord).needle ≠ [] := by
  rw [new]
  cases caseSensitive with
  | true => exact hquery
  | false => exact Unicode.toLowercase_ne_nil hquery

variable (hshape : caseSensitive = false →
  KeepsShape unicode unicode.isWordChar text)
include hshape

/-- What is to be found in the text is where the searched copy has it. -/
theorem delimits_iff {start stop : Nat} :
    Delimits unicode query caseSensitive wholeWord text start stop ↔
      ∃ before after,
        At (new unicode query caseSensitive wholeWord).needle
          ((new unicode query caseSensitive wholeWord).searchable unicode text)
          before after ∧
        unicode.accepts wholeWord before after = true ∧ start = len before ∧
        stop = start +
          len (new unicode query caseSensitive wholeWord).needle := by
  cases caseSensitive with
  | true =>
    constructor
    · rintro ⟨before, _, after, htext, hstart, hstop, rfl, haccepted⟩
      exact ⟨before, after, htext, haccepted, hstart, hstop⟩
    · rintro ⟨before, after, hat, haccepted, hstart, hstop⟩
      exact ⟨before, query, after, hat, hstart, hstop, rfl, haccepted⟩
  | false =>
    have hkeeps := hshape rfl
    change _ ↔ ∃ before after, At (unicode.toLowercase query)
      (unicode.toLowercase text) before after ∧ _
    rw [hkeeps.toLowercase_eq]
    constructor
    · rintro ⟨before, found, after, rfl, hstart, hstop, hfound, haccepted⟩
      have hbefore : KeepsShape unicode unicode.isWordChar before :=
        hkeeps.of_subset fun c hc => by simp [hc]
      have hpart : KeepsShape unicode unicode.isWordChar found :=
        hkeeps.of_subset fun c hc => by simp [hc]
      have hafter : KeepsShape unicode unicode.isWordChar after :=
        hkeeps.of_subset fun c hc => by simp [hc]
      have hneedle : found.map (lowered unicode) = unicode.toLowercase query :=
        hpart.toLowercase_eq.symm.trans hfound
      refine ⟨before.map (lowered unicode), after.map (lowered unicode), ?_,
        (hbefore.accepts_map hafter).trans haccepted,
        hstart.trans hbefore.len_map.symm, ?_⟩
      · rw [At, map_append, map_append, hneedle]
      · change stop = start + len (unicode.toLowercase query)
        rw [← hneedle, hpart.len_map]
        exact hstop
    · rintro ⟨before, after, hat, haccepted, hstart, hstop⟩
      rw [At, eq_comm, append_eq_map_iff] at hat
      obtain ⟨front, back, htext, hfront, rfl⟩ := hat
      rw [eq_comm, append_eq_map_iff] at hfront
      obtain ⟨before', found, rfl, rfl, hfound⟩ := hfront
      have hbefore : KeepsShape unicode unicode.isWordChar before' :=
        hkeeps.of_subset fun c hc => by simp [htext, hc]
      have hpart : KeepsShape unicode unicode.isWordChar found :=
        hkeeps.of_subset fun c hc => by simp [htext, hc]
      have hback : KeepsShape unicode unicode.isWordChar back :=
        hkeeps.of_subset fun c hc => by simp [htext, hc]
      refine ⟨before', found, back, htext, hstart.trans hbefore.len_map, ?_,
        hpart.toLowercase_eq.trans hfound,
        (hbefore.accepts_map hback).symm.trans haccepted⟩
      rw [hstop, ← hpart.len_map, hfound]
      rfl

end Search

/-- The tables for ASCII. -/
def asciiTables : Unicode where
  lowercase c := [c.toLower]
  lowercase_ne_nil _ := cons_ne_nil _ _
  alphanumeric := Char.isAlphanum
  cased := Char.isAlpha
  caseIgnorable c := c == '.' || c == ':' || c == '^'

end NiceTerm.Recording
