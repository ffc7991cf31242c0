/-
Secrets in a text are replaced before it is shown.  Six patterns are applied,
one to the result of the other.
-/
import NiceTerm.Lib.Regex
import NiceTerm.Lib.RustStr

namespace NiceTerm.Ai

open RustStr (Str)

/-- `(?i)` on a letter: its simple case folding, which takes in the Kelvin sign
and the long s. -/
def anyCaseOf (letter c : Char) : Bool :=
  c.toLower == letter.toLower || (letter.toLower == 'k' && c == '\u212a') ||
    (letter.toLower == 's' && c == '\u017f')

def exactly (text : String) : Regex :=
  text.toList.foldr (fun c rest => .seq (.one (· == c)) rest) .empty

def anyCase (text : String) : Regex :=
  text.toList.foldr (fun c rest => .seq (.one (anyCaseOf c)) rest) .empty

variable (p : Char → Bool)

def many : Regex := .star false p

def many1 : Regex := .seq (.one p) (many p)

def optionally : Regex := .alt (.one p) .empty

def times (p : Char → Bool) : Nat → Regex
  | 0 => .empty
  | n + 1 => .seq (.one p) (times p n)

def inOrder (parts : List Regex) : Regex := parts.foldr .seq .empty

/-- `[_-]?` between the words of a marker. -/
def joint : Regex := optionally fun c => c == '_' || c == '-'

def isSpace (c : Char) : Bool := RustStr.isWhitespace c

def isUpperOrSpace (c : Char) : Bool := c.isUpper || c == ' '

def isTokenChar (c : Char) : Bool :=
  c.isAlphanum || c == '.' || c == '_' || c == '-' || c == '\u212a' ||
    c == '\u017f'

/-- `[^\s;&|]`. -/
def isValueChar (c : Char) : Bool :=
  !(isSpace c || c == ';' || c == '&' || c == '|')

def privateKey : Regex :=
  inOrder [exactly "-----BEGIN ", many isUpperOrSpace,
    exactly "PRIVATE KEY-----", .star true fun _ => true,
    exactly "-----END ", many isUpperOrSpace, exactly "PRIVATE KEY-----"]

def bearer : Regex :=
  inOrder [anyCase "Authorization:", many isSpace, anyCase "Bearer",
    many1 isSpace, many1 isTokenChar]

/-- A marker in a group, `:` or `=`, and a value. -/
def marked (marker : Regex) : Regex :=
  inOrder [.group marker, many isSpace, .one fun c => c == ':' || c == '=',
    many isSpace, many1 isValueChar]

def password : Regex :=
  marked (.alt (anyCase "password") (.alt (anyCase "passwd") (anyCase "pwd")))

def keyMarker (word : String) : Regex :=
  inOrder [anyCase word, joint, anyCase "key"]

def token : Regex :=
  marked (.alt (anyCase "token") (.alt (keyMarker "api")
    (.alt (keyMarker "secret") (keyMarker "access"))))

def awsAccessKey : Regex :=
  .seq (exactly "AKIA") (times (fun c => c.isDigit || c.isUpper) 16)

def database : Regex :=
  inOrder [.group (.alt (anyCase "postgres")
      (.alt (anyCase "mysql") (anyCase "mongodb"))),
    exactly "://", many1 fun c => !(c == '@' || isSpace c), exactly "@"]

/-- A pattern and what is put in place of its matches, behind the group if the
replacement begins with `$1`. -/
structure Rule where
  pattern : Regex
  withGroup : Bool
  replacement : String

def Rule.expand (rule : Rule) (found : Regex.Match) : Str :=
  (if rule.withGroup then found.group.getD [] else []) ++
    rule.replacement.toList

def redactionPatterns : List Rule :=
  [⟨privateKey, false, "[REDACTED_PRIVATE_KEY]"⟩,
    ⟨bearer, false, "Authorization: Bearer [REDACTED]"⟩,
    ⟨password, true, "=[REDACTED]"⟩,
    ⟨token, true, "=[REDACTED]"⟩,
    ⟨awsAccessKey, false, "[REDACTED_AWS_ACCESS_KEY]"⟩,
    ⟨database, true, "://[REDACTED]@"⟩]

def redactWith (rules : List Rule) (input : Str) : Str :=
  rules.foldl (fun output rule =>
    Regex.replaceAll rule.pattern rule.expand output) input

def redactSensitiveText (input : Str) : Str :=
  redactWith redactionPatterns input

/-- What a text may be shown as: matches of the patterns are replaced, and all
else is shown as it is. -/
def Shown : List Rule → Str → Str → Prop
  | [], text, shown => shown = text
  | rule :: rules, text, shown =>
    ∃ output, Regex.Replaced rule.pattern rule.expand text output ∧
      Shown rules output shown

/-- What tells the two apart are matches of the patterns. -/
def UpToSecrets (first second : Str) : Prop :=
  ∃ shown, Shown redactionPatterns first shown ∧
    Shown redactionPatterns second shown

theorem shown_redactWith (rules : List Rule) (text : Str) :
    Shown rules text (redactWith rules text) := by
  induction rules generalizing text with
  | nil => rfl
  | cons rule rules ih =>
    exact ⟨Regex.replaceAll rule.pattern rule.expand text,
      Regex.replaced_replaceAll rule.pattern rule.expand text, ih _⟩

theorem shown_redactSensitiveText (text : Str) :
    Shown redactionPatterns text (redactSensitiveText text) :=
  shown_redactWith redactionPatterns text

/-- No pattern matches anywhere in the text. -/
def MentionsNone (rules : List Rule) (text : Str) : Prop :=
  ∀ tail ∈ text.tails, ∀ rule ∈ rules, Regex.run rule.pattern tail = []

theorem mentionsNone_cons {rules : List Rule} {c : Char} {text : Str}
    (hfirst : ∀ rule ∈ rules, Regex.run rule.pattern (c :: text) = [])
    (h : MentionsNone rules text) : MentionsNone rules (c :: text) := by
  intro tail htail
  rw [List.tails_cons, List.mem_cons] at htail
  rcases htail with rfl | htail
  · exact hfirst
  · exact h tail htail

theorem Shown.eq_of_mentionsNone {rules : List Rule} {text shown : Str}
    (h : Shown rules text shown) (hnone : MentionsNone rules text) :
    shown = text := by
  induction rules with
  | nil => exact h
  | cons rule rules ih =>
    obtain ⟨output, hreplaced, hshown⟩ := h
    have hsame : output = text := hreplaced.eq_of_no_match
      fun tail htail => hnone tail htail rule List.mem_cons_self
    exact ih (hsame ▸ hshown) fun tail htail other hother =>
      hnone tail htail other (List.mem_cons_of_mem rule hother)

theorem redactSensitiveText_eq {text : Str}
    (h : MentionsNone redactionPatterns text) :
    redactSensitiveText text = text :=
  (shown_redactSensitiveText text).eq_of_mentionsNone h

example : redactSensitiveText "token : abc; ls".toList =
    "token=[REDACTED]; ls".toList := by
  decide +kernel

end NiceTerm.Ai
