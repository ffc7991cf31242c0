/-
The search of the recorded history for a literal query.  Without regard to case
it runs on a copy of the text in lower case, and the offsets that it returns are
those of the copy.
-/
import NiceTerm.Lib.Search
import NiceTerm.Lib.RustSplit

namespace NiceTerm.Recording

open Occurrences
open RustStr (Str)

/-- The character tables of the standard library. -/
structure Unicode where
  lowercase : Char → Str
  lowercase_ne_nil : ∀ c, lowercase c ≠ []
  alphanumeric : Char → Bool
  cased : Char → Bool
  caseIgnorable : Char → Bool

namespace Unicode

variable (unicode : Unicode)

def caseIgnorableThenCased (text : Str) : Bool :=
  (text.dropWhile unicode.caseIgnorable).head?.any unicode.cased

/-- A capital sigma at the end of a word has a lower case of its own.  `before`
is read backwards. -/
def lowercaseAt (before : Str) (c : Char) (after : Str) : Str :=
  if c = 'Σ' then
    if unicode.caseIgnorableThenCased before &&
        !unicode.caseIgnorableThenCased after then ['ς']
    else ['σ']
  else unicode.lowercase c

def toLowercaseLoop (before : Str) : Str → Str
  | [] => []
  | c :: after =>
    unicode.lowercaseAt before c after ++ toLowercaseLoop (c :: before) after

def toLowercase (text : Str) : Str := unicode.toLowercaseLoop [] text

def isWordChar (ch : Char) : Bool := unicode.alphanumeric ch || ch == '_'

/-- No word character stands before or after the match. -/
def isWordBoundaryMatch (before after : Str) : Bool :=
  before.getLast?.all (fun ch => !unicode.isWordChar ch) &&
    after.head?.all fun ch => !unicode.isWordChar ch

def accepts (wholeWord : Bool) (before after : Str) : Bool :=
  !wholeWord || unicode.isWordBoundaryMatch before after

/-- The loop behind `passed`.  Every turn passes the needle, so a turn for each
character is enough. -/
def findLoop (needle : Str) (wholeWord : Bool) :
    Nat → Str → Str → Option (Nat × Nat)
  | 0, _, _ => none
  | turns + 1, passed, rest =>
    match RustStr.find needle rest with
    | none => none
    | some relative =>
      let before := passed ++ rest.take relative
      let after := rest.drop (relative + needle.length)
      if unicode.accepts wholeWord before after then
        some (RustStr.len before, RustStr.len before + RustStr.len needle)
      else findLoop needle wholeWord turns (before ++ needle) after

def findLiteralMatch (haystack needle : Str) (wholeWord : Bool) :
    Option (Nat × Nat) :=
  if needle.isEmpty then none
  else unicode.findLoop needle wholeWord (haystack.length + 1) [] haystack

end Unicode

structure LiteralMatcher where
  needle : Str
  caseSensitive : Bool
  wholeWord : Bool
deriving DecidableEq, Repr

def LiteralMatcher.new (unicode : Unicode) (query : Str)
    (caseSensitive wholeWord : Bool) : LiteralMatcher where
  needle := if caseSensitive then query else unicode.toLowercase query
  caseSensitive := caseSensitive
  wholeWord := wholeWord

/-- The text that is searched. -/
def LiteralMatcher.searchable (matcher : LiteralMatcher) (unicode : Unicode)
    (haystack : Str) : Str :=
  if matcher.caseSensitive then haystack else unicode.toLowercase haystack

def LiteralMatcher.find (matcher : LiteralMatcher) (unicode : Unicode)
    (haystack : Str) : Option (Nat × Nat) :=
  unicode.findLiteralMatch (matcher.searchable unicode haystack) matcher.needle
    matcher.wholeWord

/-- What a search is for: the bytes of the text from `start` to `stop` are the
query, up to case if case does not matter, and stand by themselves if whole
words are wanted. -/
def Delimits (unicode : Unicode) (query : Str) (caseSensitive wholeWord : Bool)
    (text : Str) (start stop : Nat) : Prop :=
  ∃ before found after, text = before ++ found ++ after ∧
    start = RustStr.len before ∧ stop = start + RustStr.len found ∧
    (if caseSensitive then found = query
      else unicode.toLowercase found = unicode.toLowercase query) ∧
    unicode.accepts wholeWord before after = true

/-- The search finds an occurrence if there is one, and points at one. -/
def FindsOccurrences (unicode : Unicode) (query : Str)
    (caseSensitive wholeWord : Bool) (text : Str) : Prop :=
  let found := (LiteralMatcher.new unicode query caseSensitive wholeWord).find
    unicode text
  (found.isSome ↔ ∃ start stop,
        Delimits unicode query caseSensitive wholeWord text start stop) ∧
    ∀ start stop, found = some (start, stop) →
      Delimits unicode query caseSensitive wholeWord text start stop

section LowerCase

open List

variable {unicode : Unicode} {kind : Char → Bool} {text : Str}

/-- Every character has a lower case of the same width and of the same kind. -/
def KeepsShape (unicode : Unicode) (kind : Char → Bool) (text : Str) : Prop :=
  ∀ c ∈ text, c ≠ 'Σ' ∧ ∃ d, unicode.lowercase c = [d] ∧
    d.utf8Size = c.utf8Size ∧ kind d = kind c

/-- The lower case of a character, where that is one character. -/
def lowered (unicode : Unicode) (c : Char) : Char :=
  (unicode.lowercase c).headD c

theorem KeepsShape.lowered_eq (h : KeepsShape unicode kind text) {c : Char}
    (hmem : c ∈ text) :
    unicode.lowercase c = [lowered unicode c] ∧
      (lowered unicode c).utf8Size = c.utf8Size ∧
      kind (lowered unicode c) = kind c := by
  obtain ⟨-, d, hlower, hsize, hkind⟩ := h c hmem
  have hlowered : lowered unicode c = d := by rw [lowered, hlower]; rfl
  rw [hlowered]
  exact ⟨hlower, hsize, hkind⟩

theorem KeepsShape.toLowercase_eq (h : KeepsShape unicode kind text) :
    unicode.toLowercase text = text.map (lowered unicode) := by
  have hloop : ∀ before rest, KeepsShape unicode kind rest →
      unicode.toLowercaseLoop before rest = rest.map (lowered unicode) := by
    intro before rest hrest
    induction rest generalizing before with
    | nil => rfl
    | cons c rest ih =>
      have hc := hrest c mem_cons_self
      have hlower := (hrest.lowered_eq mem_cons_self).1
      rw [Unicode.toLowercaseLoop, Unicode.lowercaseAt, if_neg hc.1, hlower,
        ih _ fun d hd => hrest d (mem_cons_of_mem c hd)]
      rfl
  exact hloop [] text h

theorem KeepsShape.of_subset {part : Str} (h : KeepsShape unicode kind text)
    (hpart : ∀ c ∈ part, c ∈ text) : KeepsShape unicode kind part :=
  fun c hc => h c (hpart c hc)

theorem KeepsShape.len_map (h : KeepsShape unicode kind text) :
    RustStr.len (text.map (lowered unicode)) = RustStr.len text := by
  induction text with
  | nil => rfl
  | cons c rest ih =>
    rw [map_cons, RustStr.len_cons, RustStr.len_cons,
      (h.lowered_eq mem_cons_self).2.1,
      ih (h.of_subset fun d hd => mem_cons_of_mem c hd)]

end LowerCase

end NiceTerm.Recording
