/-
The tokens of a POSIX shell: how quotes, blanks and operators divide a command
text into words.  Expansions are left in the words as they are written.  A
template with slots for quoted arguments is divided once, and the tokens of
each of its texts are those of the template with the arguments in their slots.
-/
import NiceTerm.Lib.RustStr

namespace ShellWords

open List Option RustStr
open RustStr (Str)

universe u v

/-- A number that stands before a redirection is a token of its own. -/
inductive Token (α : Type u) where
  | word (text : List α)
  | ioNumber (text : List α)
  | operator (text : Str)
  deriving DecidableEq, Repr

/-- What stands before the next character: a word, and whether it is a number
without quotes, or an operator that may go on. -/
inductive Current (α : Type u) where
  | nothing
  | word (text : List α) (isNumber : Bool)
  | operator (text : Str)
  deriving DecidableEq, Repr

inductive Mode where
  | plain
  | escaped
  | single
  | double
  | doubleEscaped
  | comment
  deriving DecidableEq, Repr

/-- A lexer whose words are made of letters of any kind, each character being
one of them.  The last token stands first. -/
structure Lexer (α : Type u) where
  tokens : List (Token α)
  current : Current α
  mode : Mode
  deriving DecidableEq, Repr

def isOperatorChar (c : Char) : Bool :=
  c == '|' || c == '&' || c == ';' || c == '<' || c == '>' || c == '(' ||
    c == ')'

/-- The operators of more than one character. -/
def longOperators : List Str :=
  [['&', '&'], ['|', '|'], [';', ';'], ['<', '<'], ['>', '>'], ['<', '&'],
    ['>', '&'], ['<', '>'], ['>', '|'], ['<', '<', '-']]

namespace Lexer

variable {α : Type u} {β : Type v}

def start : Lexer α := ⟨[], .nothing, .plain⟩

def currentTokens : Current α → List (Token α)
  | .nothing => []
  | .word text _ => [.word text]
  | .operator text => [.operator text]

/-- The current token is complete. -/
def flush (lexer : Lexer α) : Lexer α :=
  { lexer with
    tokens := currentTokens lexer.current ++ lexer.tokens, current := .nothing }

def wordText : Current α → List α
  | .word text _ => text
  | _ => []

/-- An empty word is a number as far as it goes. -/
def isNumber : Current α → Bool
  | .word _ isNumber => isNumber
  | _ => true

/-- An operator is complete when a word begins. -/
def operatorTokens : Current α → List (Token α)
  | .operator text => [.operator text]
  | _ => []

/-- Put letters into the current word, or begin one. -/
def put (lexer : Lexer α) (text : List α) (digits : Bool) : Lexer α :=
  { lexer with
    tokens := operatorTokens lexer.current ++ lexer.tokens
    current := .word (wordText lexer.current ++ text)
      (isNumber lexer.current && digits) }

def setMode (lexer : Lexer α) (mode : Mode) : Lexer α :=
  { lexer with mode := mode }

/-- The token of a word or an operator that a redirection may follow. -/
def tokensBefore (c : Char) : Current α → List (Token α)
  | .word text isNumber =>
    if isNumber && (c == '<' || c == '>') then [.ioNumber text]
    else [.word text]
  | .operator text => [.operator text]
  | .nothing => []

def operatorText : Current α → Str
  | .operator text => text
  | _ => []

def operatorChar (lexer : Lexer α) (c : Char) : Lexer α :=
  if operatorText lexer.current ++ [c] ∈ longOperators then
    { lexer with current := .operator (operatorText lexer.current ++ [c]) }
  else
    { lexer with
      tokens := tokensBefore c lexer.current ++ lexer.tokens
      current := .operator [c] }

def isWord : Current α → Bool
  | .word _ _ => true
  | _ => false

variable (letter : Char → α)

def plainStep (lexer : Lexer α) (c : Char) : Lexer α :=
  if c = '\'' then (lexer.put [] false).setMode .single
  else if c = '"' then (lexer.put [] false).setMode .double
  else if c = '\\' then lexer.setMode .escaped
  else if c = ' ' ∨ c = '\t' then lexer.flush
  else if c = '\n' then
    { lexer.flush with tokens := .operator [c] :: lexer.flush.tokens }
  else if isOperatorChar c then lexer.operatorChar c
  else if c = '#' ∧ isWord lexer.current = false then
    lexer.flush.setMode .comment
  else lexer.put [letter c] (RustStr.isAsciiDigit c)

def step (lexer : Lexer α) (c : Char) : Lexer α :=
  match lexer.mode with
  | .plain => lexer.plainStep letter c
  | .escaped =>
    if c = '\n' then lexer.setMode .plain
    else (lexer.put [letter c] false).setMode .plain
  | .single =>
    if c = '\'' then lexer.setMode .plain else lexer.put [letter c] false
  | .double =>
    if c = '"' then lexer.setMode .plain
    else if c = '\\' then lexer.setMode .doubleEscaped
    else lexer.put [letter c] false
  | .doubleEscaped =>
    if c = '\n' then lexer.setMode .double
    else if c = '$' ∨ c = '`' ∨ c = '"' ∨ c = '\\' then
      (lexer.put [letter c] false).setMode .double
    else (lexer.put [letter '\\', letter c] false).setMode .double
  | .comment =>
    if c = '\n' then (lexer.setMode .plain).plainStep letter c
    else lexer

def run (lexer : Lexer α) : Str → Lexer α
  | [] => lexer
  | c :: rest => run (lexer.step letter c) rest

/-- The tokens, unless a quote is left open. -/
def finish (lexer : Lexer α) : Option (List (Token α)) :=
  if lexer.mode = .plain ∨ lexer.mode = .comment then
    some lexer.flush.tokens.reverse
  else none

end Lexer

open Lexer

def read (lexer : Lexer Char) (text : Str) : Lexer Char :=
  lexer.run id text

def tokens (text : Str) : Option (List (Token Char)) :=
  (read start text).finish

example : tokens "a'b c'\\ d \"e$f\"2>/x 3>&1&&g;h # i".toList =
    some [.word "ab c d".toList, .word "e$f2".toList, .operator ">".toList,
      .word "/x".toList, .ioNumber "3".toList, .operator ">&".toList,
      .word "1".toList, .operator "&&".toList, .word "g".toList,
      .operator ";".toList,
      .word "h".toList] := by decide +kernel

/-- A quote inside a quoted text: the quotes end, an escaped quote stands, and
they begin again. -/
def escapeQuote (c : Char) : Str :=
  if c = '\'' then ['\'', '\\', '\'', '\''] else [c]

def quote (text : Str) : Str :=
  ['\''] ++ text.flatMap escapeQuote ++ ['\'']

/-! ## Quoted texts -/

@[simp] theorem read_nil (lexer : Lexer Char) : read lexer [] = lexer := rfl

theorem read_cons (lexer : Lexer Char) (c : Char) (rest : Str) :
    read lexer (c :: rest) = read (lexer.step id c) rest := rfl

theorem read_append (lexer : Lexer Char) (front back : Str) :
    read lexer (front ++ back) = read (read lexer front) back := by
  induction front generalizing lexer with
  | nil => rfl
  | cons c front ih => rw [cons_append, read_cons, read_cons, ih]

/-- Between single quotes an escaped text is read as it is. -/
theorem read_escaped (tokens : List (Token Char)) (before text : Str) :
    read ⟨tokens, .word before false, .single⟩ (text.flatMap escapeQuote) =
      ⟨tokens, .word (before ++ text) false, .single⟩ := by
  induction text generalizing before with
  | nil => rw [flatMap_nil, read_nil, append_nil]
  | cons c text ih =>
    rw [flatMap_cons, read_append]
    have hchar : read ⟨tokens, .word before false, .single⟩ (escapeQuote c) =
        ⟨tokens, .word (before ++ [c]) false, .single⟩ := by
      by_cases hc : c = '\''
      · subst hc
        simp [escapeQuote, read, run, step, plainStep, setMode, put,
          operatorTokens, wordText, isNumber]
      · simp [escapeQuote, hc, read, run, step, put, operatorTokens, wordText,
          isNumber]
    rw [hchar, ih, append_assoc, singleton_append]

/-- A quoted text joins the current word, or is one of its own, as it is. -/
theorem read_quote {lexer : Lexer Char} (h : lexer.mode = .plain) (text : Str) :
    read lexer (quote text) = lexer.put text false := by
  obtain ⟨tokens, current, mode⟩ := lexer
  obtain rfl : mode = .plain := h
  have hopen : read ⟨tokens, current, .plain⟩ ['\''] =
      ⟨operatorTokens current ++ tokens, .word (wordText current) false,
        .single⟩ := by
    rw [read_cons, read_nil]
    simp [step, plainStep, put, setMode]
  have hclose : read ⟨operatorTokens current ++ tokens,
      .word (wordText current ++ text) false, .single⟩ ['\''] =
      (Lexer.mk tokens current .plain).put text false := by
    rw [read_cons, read_nil]
    simp [step, put, setMode]
  rw [quote, read_append, read_append, hopen, read_escaped, hclose]

theorem put_append {α : Type u} (lexer : Lexer α) (front back : List α)
    (digits : Bool) :
    (lexer.put front digits).put back digits =
      lexer.put (front ++ back) digits := by
  simp [put, operatorTokens, wordText, isNumber]

theorem isAsciiDigit_ordinary {c : Char} (h : isAsciiDigit c = true) :
    c ∉ ['\'', '"', '\\', ' ', '\t', '\n', '#'] ∧ isOperatorChar c = false := by
  have hne : ∀ other, isAsciiDigit other = false → c ≠ other := by
    rintro other hother rfl
    rw [h] at hother
    cases hother
  constructor
  · simp only [mem_cons, not_mem_nil, or_false, not_or]
    exact ⟨hne _ rfl, hne _ rfl, hne _ rfl, hne _ rfl, hne _ rfl, hne _ rfl,
      hne _ rfl⟩
  · simp [isOperatorChar, hne '|' rfl, hne '&' rfl, hne ';' rfl, hne '<' rfl,
      hne '>' rfl, hne '(' rfl, hne ')' rfl]

/-- A number stands in its word as it is. -/
theorem read_digits {lexer : Lexer Char} (h : lexer.mode = .plain) {c : Char}
    {digits : Str}
    (hdigits : ∀ d ∈ c :: digits, isAsciiDigit d = true) :
    read lexer (c :: digits) = lexer.put (c :: digits) true := by
  induction digits generalizing lexer c with
  | nil =>
    have hc := hdigits c mem_cons_self
    obtain ⟨hspecial, hoperator⟩ := isAsciiDigit_ordinary hc
    simp only [mem_cons, not_mem_nil, or_false, not_or] at hspecial
    rw [read_cons, read_nil, step, h]
    simp [plainStep, hspecial, hoperator, hc]
  | cons d digits ih =>
    have hrest : ∀ e ∈ d :: digits, isAsciiDigit e = true :=
      fun e he => hdigits e (mem_cons_of_mem c he)
    have hc := hdigits c mem_cons_self
    obtain ⟨hspecial, hoperator⟩ := isAsciiDigit_ordinary hc
    simp only [mem_cons, not_mem_nil, or_false, not_or] at hspecial
    have hone : lexer.step id c = lexer.put [c] true := by
      rw [step, h]
      simp [plainStep, hspecial, hoperator, hc]
    have hmode : (lexer.put [c] true).mode = .plain := h
    rw [read_cons, hone, ih hmode hrest, put_append, singleton_append]

/-! ## Templates -/

/-- A character of a template, or an argument of it. -/
inductive Symbol where
  | char (c : Char)
  | slot (slot : Nat)
  deriving DecidableEq, Repr

/-- A part of a template: text as it is, a quoted argument, or a number. -/
inductive Piece where
  | text (text : Str)
  | quoted (slot : Nat)
  | number (slot : Nat)
  deriving DecidableEq, Repr

section Filling

variable (arguments : Nat → Str)

def Piece.render : Piece → Str
  | .text fixed => fixed
  | .quoted slot => quote (arguments slot)
  | .number slot => arguments slot

def render (pieces : List Piece) : Str :=
  pieces.flatMap (Piece.render arguments)

def fillSymbol : Symbol → Str
  | .char c => [c]
  | .slot slot => arguments slot

def fill (text : List Symbol) : Str := text.flatMap (fillSymbol arguments)

def Token.fill : Token Symbol → Token Char
  | .word symbols => .word (ShellWords.fill arguments symbols)
  | .ioNumber symbols => .ioNumber (ShellWords.fill arguments symbols)
  | .operator text => .operator text

def Current.fill : Current Symbol → Current Char
  | .nothing => .nothing
  | .word symbols isNumber => .word (ShellWords.fill arguments symbols) isNumber
  | .operator text => .operator text

def Lexer.fill (lexer : Lexer Symbol) : Lexer Char :=
  ⟨lexer.tokens.map (Token.fill arguments), lexer.current.fill arguments,
    lexer.mode⟩

end Filling

/-- Read a part of a template.  A slot has to stand outside of quotes. -/
def readPiece (lexer : Lexer Symbol) : Piece → Option (Lexer Symbol)
  | .text text => some (lexer.run .char text)
  | .quoted slot =>
    if lexer.mode = .plain then some (lexer.put [.slot slot] false) else none
  | .number slot =>
    if lexer.mode = .plain then some (lexer.put [.slot slot] true) else none

/-- The tokens of a template. -/
def templateTokens (pieces : List Piece) : Option (List (Token Symbol)) :=
  (pieces.foldlM readPiece start).bind finish

variable {arguments : Nat → Str}

section

variable (lexer : Lexer Symbol)
include lexer

theorem fill_flush :
    lexer.flush.fill arguments = (lexer.fill arguments).flush := by
  obtain ⟨tokens, current, mode⟩ := lexer
  cases current <;> simp [flush, Lexer.fill, currentTokens, Current.fill,
    Token.fill]

theorem fill_put (text : List Symbol) (digits : Bool) :
    (lexer.put text digits).fill arguments =
      (lexer.fill arguments).put (fill arguments text) digits := by
  obtain ⟨tokens, current, mode⟩ := lexer
  cases current <;> simp [put, Lexer.fill, operatorTokens, wordText, isNumber,
    Current.fill, Token.fill, fill]

theorem fill_setMode (mode : Mode) :
    (lexer.setMode mode).fill arguments =
      (lexer.fill arguments).setMode mode := rfl

theorem fill_operatorChar (c : Char) :
    (lexer.operatorChar c).fill arguments =
      (lexer.fill arguments).operatorChar c := by
  obtain ⟨tokens, current, mode⟩ := lexer
  have hbefore : (tokensBefore c current).map (Token.fill arguments) =
      tokensBefore c (current.fill arguments) := by
    cases current with
    | nothing => rfl
    | operator text => rfl
    | word text isNumber =>
      simp only [tokensBefore, Current.fill]
      split <;> rfl
  have htext : operatorText (current.fill arguments) =
      operatorText current := by
    cases current <;> rfl
  simp only [operatorChar, Lexer.fill, htext, ← hbefore]
  split
  · rfl
  · rw [map_append]
    rfl

theorem fill_plainStep (c : Char) :
    (lexer.plainStep .char c).fill arguments =
      (lexer.fill arguments).plainStep id c := by
  have hword : isWord (lexer.fill arguments).current =
      isWord lexer.current := by
    obtain ⟨tokens, current, mode⟩ := lexer
    cases current <;> rfl
  have hchar : fill arguments [Symbol.char c] = [id c] := rfl
  simp only [plainStep, hword]
  split
  · rw [fill_setMode, fill_put]
    rfl
  split
  · rw [fill_setMode, fill_put]
    rfl
  split
  · rfl
  split
  · exact fill_flush lexer
  split
  · have hflush : lexer.flush.fill arguments = (lexer.fill arguments).flush :=
      fill_flush lexer
    rw [← hflush]
    simp [Lexer.fill, Token.fill]
  split
  · exact fill_operatorChar lexer c
  split
  · rw [fill_setMode, fill_flush]
  · rw [fill_put, hchar]

theorem fill_step (c : Char) :
    (lexer.step .char c).fill arguments = (lexer.fill arguments).step id c := by
  have hmode : (lexer.fill arguments).mode = lexer.mode := rfl
  have hchar : fill arguments [Symbol.char c] = [id c] := rfl
  have hescaped : fill arguments [Symbol.char '\\', .char c] =
      [id '\\', id c] := rfl
  rw [step, step, hmode]
  cases lexer.mode with
  | plain => exact fill_plainStep lexer c
  | escaped =>
    simp only
    split
    · rfl
    · rw [fill_setMode, fill_put, hchar]
  | single =>
    simp only
    split
    · rfl
    · rw [fill_put, hchar]
  | double =>
    simp only
    split
    · rfl
    split
    · rfl
    · rw [fill_put, hchar]
  | doubleEscaped =>
    simp only
    split
    · rfl
    split
    · rw [fill_setMode, fill_put, hchar]
    · rw [fill_setMode, fill_put, hescaped]
  | comment =>
    simp only
    split
    · rw [fill_plainStep, fill_setMode]
    · rfl

theorem fill_run (text : Str) :
    (lexer.run .char text).fill arguments =
      read (lexer.fill arguments) text := by
  induction text generalizing lexer with
  | nil => rfl
  | cons c text ih => rw [run, ih, fill_step, read_cons]

end

/-- The slots of numbers are filled with numbers. -/
def NumbersFit (arguments : Nat → Str) (pieces : List Piece) : Prop :=
  ∀ slot, Piece.number slot ∈ pieces → arguments slot ≠ [] ∧
    ∀ d ∈ arguments slot, isAsciiDigit d = true

theorem read_piece {lexer after : Lexer Symbol} {piece : Piece}
    (hnumber : ∀ slot, piece = .number slot → arguments slot ≠ [] ∧
      ∀ d ∈ arguments slot, isAsciiDigit d = true)
    (h : readPiece lexer piece = some after) :
    read (lexer.fill arguments) (piece.render arguments) =
      after.fill arguments := by
  cases piece with
  | text text =>
    obtain rfl := some.inj h
    exact (fill_run lexer text).symm
  | quoted slot =>
    obtain ⟨hmode, hafter⟩ := ite_none_right_eq_some.mp h
    obtain rfl := some.inj hafter
    rw [fill_put, Piece.render, read_quote hmode, fill, flatMap_cons,
      flatMap_nil, append_nil, fillSymbol]
  | number slot =>
    obtain ⟨hmode, hafter⟩ := ite_none_right_eq_some.mp h
    obtain rfl := some.inj hafter
    obtain ⟨hne, hdigits⟩ := hnumber slot rfl
    obtain ⟨c, digits, hcons⟩ := exists_cons_of_ne_nil hne
    rw [hcons] at hdigits
    rw [fill_put, Piece.render, fill, flatMap_cons, flatMap_nil,
      append_nil, fillSymbol, hcons, read_digits hmode hdigits]

theorem read_render {lexer after : Lexer Symbol} {pieces : List Piece}
    (hnumbers : NumbersFit arguments pieces)
    (h : pieces.foldlM readPiece lexer = some after) :
    read (lexer.fill arguments) (render arguments pieces) =
      after.fill arguments := by
  induction pieces generalizing lexer with
  | nil =>
    obtain rfl := some.inj h
    rfl
  | cons piece pieces ih =>
    rw [foldlM_cons] at h
    obtain ⟨middle, hpiece, hrest⟩ := bind_eq_some_iff.mp h
    have hpieceFits : ∀ slot, piece = .number slot → arguments slot ≠ [] ∧
        ∀ d ∈ arguments slot, isAsciiDigit d = true :=
      fun slot hslot => hnumbers slot (hslot ▸ mem_cons_self)
    have hfirst := read_piece hpieceFits hpiece
    rw [render, flatMap_cons, read_append, hfirst]
    exact ih (fun slot hslot => hnumbers slot (mem_cons_of_mem _ hslot)) hrest

/-- The tokens of a text are those of its template with the arguments in their
slots, whatever characters these have. -/
theorem tokens_render {pieces : List Piece} {expected : List (Token Symbol)}
    (hnumbers : NumbersFit arguments pieces)
    (h : templateTokens pieces = some expected) :
    tokens (render arguments pieces) =
      some (expected.map (Token.fill arguments)) := by
  obtain ⟨after, hfold, hfinish⟩ := bind_eq_some_iff.mp h
  have hread : read start (render arguments pieces) = after.fill arguments :=
    read_render hnumbers hfold
  rw [tokens, hread]
  obtain ⟨hmode, htokens⟩ := ite_none_right_eq_some.mp hfinish
  obtain rfl := some.inj htokens
  have hplain : (after.fill arguments).finish =
      some (after.fill arguments).flush.tokens.reverse := if_pos hmode
  rw [hplain, ← fill_flush, map_reverse]
  rfl

/-! ## Options -/

/-- Where the next token stands: at the beginning of a command, or among the
arguments of a utility, which may all be operands. -/
inductive Place where
  | command
  | arguments (utility : Str) (operandsOnly : Bool)
  deriving DecidableEq, Repr

/-- `redirect` is set before the file of a redirection. -/
structure Position where
  place : Place
  redirect : Bool
  deriving DecidableEq, Repr

def reservedWords : List Str :=
  [['i', 'f'], ['t', 'h', 'e', 'n'], ['e', 'l', 's', 'e'], ['e', 'l', 'i', 'f'],
    ['f', 'i'], ['d', 'o'], ['d', 'o', 'n', 'e'], ['w', 'h', 'i', 'l', 'e'],
    ['u', 'n', 't', 'i', 'l'], ['f', 'o', 'r'], ['c', 'a', 's', 'e'],
    ['e', 's', 'a', 'c'], ['i', 'n'], ['{'], ['}'], ['!']]

def isNameStart (c : Char) : Bool :=
  ('a' ≤ c && c ≤ 'z') || ('A' ≤ c && c ≤ 'Z') || c == '_'

/-- `name=value` before the utility. -/
def isAssignment (word : Str) : Bool :=
  word.head?.any isNameStart && word.contains '=' &&
    (word.takeWhile (· ≠ '=')).all fun c =>
      isNameStart c || isAsciiDigit c

/-- A dash with something behind it. -/
def isDashed : Str → Bool
  | '-' :: _ :: _ => true
  | _ => false

/-- The utilities that read each of their arguments as an operand. -/
def testUtilities : List Str := [['t', 'e', 's', 't'], ['[']]

namespace Position

def start : Position := ⟨.command, false⟩

def readOperator (position : Position) (text : Str) : Position :=
  if text.any fun c => c == '<' || c == '>' then
    { position with redirect := true }
  else start

/-- Behind `--` there are operands only, but `find` reads every dashed argument
as a part of its expression. -/
def readWord (position : Position) (text : Str) : Position × Bool :=
  if position.redirect then ({ position with redirect := false }, false)
  else
    match position.place with
    | .command =>
      if text ∈ reservedWords ∨ isAssignment text = true then (start, false)
      else (⟨.arguments text (text ∈ testUtilities), false⟩, false)
    | .arguments utility operandsOnly =>
      if operandsOnly then (position, false)
      else if utility ≠ ['f', 'i', 'n', 'd'] ∧ text = ['-', '-'] then
        (⟨.arguments utility true, false⟩, false)
      else (position, isDashed text)

/-- The position behind a token, and whether the token is an option of its
utility. -/
def read (position : Position) : Token Char → Position × Bool
  | .operator text => (position.readOperator text, false)
  | .ioNumber _ => (position, false)
  | .word text => position.readWord text

end Position

/-- Whether one of the marked tokens is taken as an option. -/
def takesOption (position : Position) : List (Token Char × Bool) → Bool
  | [] => false
  | marked :: rest =>
    (marked.2 && (position.read marked.1).2) ||
      takesOption (position.read marked.1).1 rest

/-- Behind `--` a path is an operand, whatever the argument before it was. -/
theorem takesOption_dashes {utility : Str} (h : utility ≠ ['f', 'i', 'n', 'd'])
    (operandsOnly : Bool) (text : Str) (rest : List (Token Char × Bool)) :
    takesOption ⟨.arguments utility operandsOnly, false⟩
        ((.word text, false) :: (.word ['-', '-'], false) :: rest) =
      takesOption ⟨.arguments utility true, false⟩ rest := by
  cases operandsOnly with
  | true => rfl
  | false =>
    by_cases htext : text = ['-', '-']
    · simp [takesOption, Position.read, Position.readWord, htext, h]
    · simp [takesOption, Position.read, Position.readWord, htext, h]

theorem takesOption_unmarked {position : Position}
    {marked : List (Token Char × Bool)} (h : ∀ m ∈ marked, m.2 = false) :
    takesOption position marked = false := by
  induction marked generalizing position with
  | nil => rfl
  | cons m rest ih =>
    rw [takesOption, h m mem_cons_self, Bool.false_and, Bool.false_or]
    exact ih fun m hm => h m (mem_cons_of_mem _ hm)

/-- `find` reads its operand as an option when it starts with a dash. -/
theorem takesOption_find (text : Str) {rest : List (Token Char × Bool)}
    (h : ∀ m ∈ rest, m.2 = false) :
    takesOption .start
        ((.word ['f', 'i', 'n', 'd'], false) :: (.word text, true) :: rest) =
      isDashed text := by
  rw [takesOption, takesOption, takesOption_unmarked h]
  simp [Position.read, Position.readWord, Position.start, reservedWords,
    isAssignment, testUtilities]

end ShellWords
