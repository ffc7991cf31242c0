/-
The cookie of the local display, as it is read from the output of `xauth list`.
-/
import NiceTerm.Lib.RustSplit

namespace NiceTerm.Ssh

open RustStr

namespace X11

open List Option
open RustStr (Str)

def parseDisplayNumber (value : Str) : Option Nat :=
  let part := value.takeWhile (· != '.')
  if part.isEmpty then none else parseU16 part

def displayNumber (display : Str) : Option Nat :=
  let trimmed := trim display
  match trimmed with
  | ':' :: rest => parseDisplayNumber rest
  | _ =>
    if "unix:".toList.isPrefixOf trimmed then
      parseDisplayNumber (trimmed.drop 5)
    else
      match rsplitOnce ':' trimmed with
      | none => none
      | some (_, rest) => (parseDisplayNumber rest).filter (· < 100)

def mitMagicCookieName : Str := "MIT-MAGIC-COOKIE-1".toList

def contains (part line : Str) : Bool := (find part line).isSome

section

-- `hex::decode`
variable (hexDecode : Str → Option (List UInt8))

/-- The cookie that is taken from a line, whatever display it is for. -/
def lineCookie (line : Str) : Option (List UInt8) :=
  if contains mitMagicCookieName line then
    match splitWhitespace line with
    | _ :: _ :: part :: _ => hexDecode part
    | _ => none
  else none

variable (number : Nat)

/-- `:` and the number of the display. -/
def displayText : Str := ':' :: decimal number

/-- The loop of `parse_xauth_cookie`. -/
def xauthLoop (number : Option Nat) (fallback : Option (List UInt8)) :
    List Str → Option (List UInt8)
  | [] => fallback
  | line :: lines =>
    match lineCookie hexDecode line with
    | none => xauthLoop number fallback lines
    | some cookie =>
      if number.any fun n => contains (displayText n) line then some cookie
      else xauthLoop number (fallback.or (some cookie)) lines

def parseXauthCookie (output display : Str) : Option (List UInt8) :=
  xauthLoop hexDecode (displayNumber display) none (RustStr.lines output)

/-- The name of a display ends in its number, and perhaps a screen. -/
def NamesDisplay (name : Str) : Prop :=
  ∃ host screen, name = host ++ displayText number ++ screen ∧ ':' ∉ screen ∧
    (screen = [] ∨ screen.head? = some '.')

/-- A line of `xauth list` with a cookie for the display. -/
def DisplayLine (line : Str) (cookie : List UInt8) : Prop :=
  ∃ name part rest,
    splitWhitespace line = name :: mitMagicCookieName :: part :: rest ∧
      hexDecode part = some cookie ∧ NamesDisplay number name

/-- A line with a cookie in which the number of the display stands anywhere
behind a colon. -/
def Mentions (line : Str) (cookie : List UInt8) : Prop :=
  lineCookie hexDecode line = some cookie ∧ displayText number <:+: line

variable {hexDecode}

theorem contains_iff {part line : Str} (hne : part ≠ []) :
    contains part line = true ↔ part <:+: line := by
  rw [contains, ← not_iff_not, ← find_eq_none hne, Bool.not_eq_true,
    isSome_eq_false_iff, isNone_iff_eq_none]

theorem displayText_ne_nil : displayText number ≠ [] :=
  cons_ne_nil _ _

theorem DisplayLine.mentions {number : Nat} {line : Str} {cookie : List UInt8}
    (h : DisplayLine hexDecode number line cookie) :
    Mentions hexDecode number line cookie := by
  obtain ⟨name, part, rest, hfields, hcookie, host, screen, hname, -⟩ := h
  have hfound : ∀ field ∈ splitWhitespace line, field <:+: line :=
    fun field => infix_of_mem_splitWhitespace
  rw [hfields] at hfound
  have hmit : contains mitMagicCookieName line = true :=
    (contains_iff (by decide)).mpr (hfound _ (mem_cons_of_mem _ mem_cons_self))
  refine ⟨?_, ?_⟩
  · rw [lineCookie, if_pos hmit, hfields]
    exact hcookie
  · have hdisplay : displayText number <:+: name :=
      ⟨host, screen, hname.symm⟩
    exact hdisplay.trans (hfound _ mem_cons_self)

/-- The first line that mentions the display gives the cookie. -/
theorem xauthLoop_of_first {number : Nat} {before after : List Str} {line : Str}
    {cookie : List UInt8} (hline : Mentions hexDecode number line cookie)
    (hbefore : ∀ other ∈ before, ¬ ∃ c, Mentions hexDecode number other c)
    (fallback : Option (List UInt8)) :
    xauthLoop hexDecode (some number) fallback (before ++ line :: after) =
      some cookie := by
  induction before generalizing fallback with
  | nil =>
    have hcontains : contains (displayText number) line = true :=
      (contains_iff (displayText_ne_nil number)).mpr hline.2
    rw [nil_append, xauthLoop, hline.1]
    simp only [any_some, hcontains, ↓reduceIte]
  | cons other before ih =>
    rw [forall_mem_cons] at hbefore
    rw [cons_append, xauthLoop]
    cases hcookie : lineCookie hexDecode other with
    | none => exact ih hbefore.2 fallback
    | some c =>
      have hnot : ¬ contains (displayText number) other = true := by
        rw [contains_iff (displayText_ne_nil number)]
        exact fun hfound => hbefore.1 ⟨c, hcookie, hfound⟩
      simp only [any_some, hnot, Bool.false_eq_true, ↓reduceIte]
      exact ih hbefore.2 _

/-- Among some lines none mentions the display, or one does so first. -/
theorem exists_first_mention (hexDecode : Str → Option (List UInt8))
    (number : Nat) (lines : List Str) :
    (∀ line ∈ lines, ¬ ∃ c, Mentions hexDecode number line c) ∨
      ∃ before line after c, lines = before ++ line :: after ∧
        Mentions hexDecode number line c ∧
        ∀ other ∈ before, ¬ ∃ c, Mentions hexDecode number other c := by
  induction lines with
  | nil => exact .inl fun line hmem => absurd hmem not_mem_nil
  | cons line lines ih =>
    by_cases hline : ∃ c, Mentions hexDecode number line c
    · obtain ⟨c, hc⟩ := hline
      exact .inr ⟨[], line, lines, c, rfl, hc,
        fun other hmem => absurd hmem not_mem_nil⟩
    · rcases ih with hnone | ⟨before, first, after, c, rfl, hc, hbefore⟩
      · exact .inl (forall_mem_cons.mpr ⟨hline, hnone⟩)
      · exact .inr ⟨line :: before, first, after, c, rfl, hc,
          forall_mem_cons.mpr ⟨hline, hbefore⟩⟩

def hexDigit (c : Char) : Option Nat :=
  if '0' ≤ c ∧ c ≤ '9' then some (c.toNat - 48)
  else if 'a' ≤ c ∧ c ≤ 'f' then some (c.toNat - 87)
  else if 'A' ≤ c ∧ c ≤ 'F' then some (c.toNat - 55)
  else none

/-- Two digits for each byte. -/
def hexDigits : Str → Option (List UInt8)
  | [] => some []
  | [_] => none
  | high :: low :: rest => do
    let high ← hexDigit high
    let low ← hexDigit low
    let bytes ← hexDigits rest
    return UInt8.ofNat (16 * high + low) :: bytes

/-- The cookie of the first line for the display is returned exactly if the
first line in front of it that mentions the display, if there is one, has the
same cookie. -/
theorem parseXauthCookie_iff (hexDecode : Str → Option (List UInt8))
    (output display : Str) (number : Nat) (before after : List Str) (line : Str)
    (cookie : List UInt8) (hnumber : displayNumber display = some number)
    (hlines : RustStr.lines output = before ++ line :: after)
    (hline : DisplayLine hexDecode number line cookie)
    (hfirst : ∀ other ∈ before, ¬ ∃ c, DisplayLine hexDecode number other c) :
    parseXauthCookie hexDecode output display = some cookie ↔
      ∀ front other back c, before = front ++ other :: back →
        Mentions hexDecode number other c →
        (∀ earlier ∈ front, ¬ ∃ c, Mentions hexDecode number earlier c) →
        c = cookie := by
  rw [parseXauthCookie, hnumber, hlines]
  rcases exists_first_mention hexDecode number before with
    hnone | ⟨front, other, back, c, rfl, hmention, hfront⟩
  · rw [xauthLoop_of_first hline.mentions hnone]
    refine iff_of_true rfl ?_
    rintro front other back c rfl hmention -
    exact absurd ⟨c, hmention⟩ (hnone other (by simp))
  · have happend : front ++ other :: back ++ line :: after =
        front ++ other :: (back ++ line :: after) := by simp
    rw [happend, xauthLoop_of_first hmention hfront, some.injEq]
    constructor
    · rintro rfl front' other' back' c' heq hmention' hfront'
      have hloop : xauthLoop hexDecode (some number) none
          (front ++ other :: back) = some c :=
        xauthLoop_of_first hmention hfront none
      rw [heq, xauthLoop_of_first hmention' hfront'] at hloop
      exact some.inj hloop
    · intro h
      exact h front other back c rfl hmention hfront

theorem displayLine_one :
    DisplayLine hexDigits 1 "h/unix:1  MIT-MAGIC-COOKIE-1  bb".toList [187] :=
  ⟨"h/unix:1".toList, "bb".toList, [], by decide +kernel, by decide +kernel,
    "h/unix".toList, [], by decide +kernel, not_mem_nil, .inl rfl⟩

theorem display_cookie_returned :
    parseXauthCookie hexDigits ("h/unix:2  MIT-MAGIC-COOKIE-1  aa\n" ++
          "h/unix:1  MIT-MAGIC-COOKIE-1  bb\n").toList ":1".toList =
      some [187] := by
  have hnot : ∀ other ∈ ["h/unix:2  MIT-MAGIC-COOKIE-1  aa".toList],
      ¬ ∃ c, Mentions hexDigits 1 other c := by
    rw [forall_mem_singleton]
    rintro ⟨c, -, hfound⟩
    exact absurd ((contains_iff (displayText_ne_nil 1)).mpr hfound)
      (by decide +kernel)
  refine (parseXauthCookie_iff hexDigits _ ":1".toList 1
    ["h/unix:2  MIT-MAGIC-COOKIE-1  aa".toList] [] _ [187] (by decide +kernel)
    (by decide +kernel) displayLine_one ?_).mpr ?_
  · exact fun other hmem ⟨c, hline⟩ => hnot other hmem ⟨c, hline.mentions⟩
  · intro front other back c heq hmention hfront
    exact absurd ⟨c, hmention⟩ (hnot other (by rw [heq]; simp))

/-- The cookie of display 10 is returned for display 1. -/
theorem cookie_of_other_display :
    displayNumber ":1".toList = some 1 ∧
      DisplayLine hexDigits 1 "h/unix:1  MIT-MAGIC-COOKIE-1  bb".toList [187] ∧
      (¬ ∃ c, DisplayLine hexDigits 1
        "h/unix:10  MIT-MAGIC-COOKIE-1  aa".toList c) ∧
      parseXauthCookie hexDigits ("h/unix:10  MIT-MAGIC-COOKIE-1  aa\n" ++
          "h/unix:1  MIT-MAGIC-COOKIE-1  bb\n").toList ":1".toList =
        some [170] := by
  refine ⟨by decide +kernel, displayLine_one, ?_, by decide +kernel⟩
  rintro ⟨c, name, part, rest, hfields, -, host, screen, hname, -, hend⟩
  have hsplit : splitWhitespace "h/unix:10  MIT-MAGIC-COOKIE-1  aa".toList =
      ["h/unix:10".toList, mitMagicCookieName, "aa".toList] := by
    decide +kernel
  rw [hsplit, cons.injEq] at hfields
  rw [← hfields.1] at hname
  have hshort : host.length < 10 := by
    have hlength := congrArg List.length hname
    rw [length_append, length_append] at hlength
    have : "h/unix:10".toList.length = 9 := by decide
    omega
  have hdrop : "h/unix:10".toList.drop host.length = displayText 1 ++ screen := by
    rw [hname, append_assoc, drop_left]
  have hnone : ∀ k < 10, ¬ (("h/unix:10".toList.drop k).take 2 = displayText 1 ∧
      ((("h/unix:10".toList.drop k).drop 2) = [] ∨
        (("h/unix:10".toList.drop k).drop 2).head? = some '.')) := by
    decide +kernel
  have hlength : (displayText 1).length = 2 := by decide +kernel
  apply hnone _ hshort
  rw [hdrop, ← hlength, take_left, drop_left]
  exact ⟨rfl, hend⟩

end

end X11

end NiceTerm.Ssh
