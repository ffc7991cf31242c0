/-
The tokenizer read as a machine that takes one character at a time.  It holds
an operator that may still be doubled, and so knows at every point of a command
what has been read.
-/
import NiceTerm.Capabilities.CommandRisk

namespace NiceTerm.Capabilities

open List

open RustStr (Str)

namespace Tokenizer

/-- What reads on after these tokens. -/
def behind (front : List Str) (state : Tokenizer) : Tokenizer :=
  { state with tokens := front ++ state.tokens }

variable (front : List Str) (state : Tokenizer) (c : Char)

theorem pushToken_tokens :
    state.pushToken.tokens =
      state.tokens ++ (if state.current.isEmpty then [] else [state.current]) := by
  rw [pushToken]
  split <;> simp

@[simp] theorem pushToken_current : state.pushToken.current = [] := by
  rw [pushToken]
  split
  · next hempty => exact isEmpty_iff.mp hempty
  · rfl

@[simp] theorem pushToken_quote : state.pushToken.quote = state.quote := by
  rw [pushToken]; split <;> rfl

@[simp] theorem pushToken_escaped :
    state.pushToken.escaped = state.escaped := by
  rw [pushToken]; split <;> rfl

theorem behind_pushToken :
    (state.behind front).pushToken = state.pushToken.behind front := by
  rw [pushToken, pushToken]
  change (if state.current.isEmpty then _ else _) = _
  split
  · rfl
  · simp [behind]

theorem behind_pushOperator (operator : Str) :
    (state.behind front).pushOperator operator =
      (state.pushOperator operator).behind front := by
  rw [pushOperator, pushOperator, behind_pushToken]
  simp [behind]

theorem behind_pushQuote :
    (state.behind front).pushQuote c = (state.pushQuote c).behind front := by
  rw [pushQuote, pushQuote]
  change (if state.quote = some c then _ else if state.quote = none then _
    else _) = _
  split
  · rfl
  · split <;> rfl

end Tokenizer

/-- `held` is an operator that may still be doubled. -/
structure Scanner where
  state : Tokenizer := {}
  held : Option Char := none
deriving DecidableEq, Repr

namespace Scanner

variable (s : Scanner)

/-- The held operator is not doubled. -/
def release : Tokenizer :=
  match s.held with
  | some c => s.state.pushOperator [c]
  | none => s.state

def scanPlain (state : Tokenizer) (c : Char) : Scanner :=
  if state.escaped then ⟨state.pushChar c, none⟩
  else if c = '\\' ∧ state.quote ≠ some '\'' then
    ⟨{ state with escaped := true }, none⟩
  else if c = '\'' ∨ c = '"' then ⟨state.pushQuote c, none⟩
  else if state.quote = none ∧ c = '\n' then ⟨state.pushOperator [';'], none⟩
  else if state.quote = none ∧ RustStr.isWhitespace c then
    ⟨state.pushToken, none⟩
  else if state.quote = none ∧ isOperatorChar c then
    if isDoubled c then ⟨state, some c⟩ else ⟨state.pushOperator [c], none⟩
  else ⟨state.pushChar c, none⟩

def scanChar (c : Char) : Scanner :=
  if s.held = some c then ⟨s.state.pushOperator [c, c], none⟩
  else scanPlain s.release c

def run (text : Str) : Scanner := text.foldl scanChar s

def behind (front : List Str) (s : Scanner) : Scanner :=
  { s with state := s.state.behind front }

@[simp] theorem run_nil : s.run [] = s := rfl

@[simp] theorem run_cons (c : Char) (text : Str) :
    s.run (c :: text) = (s.scanChar c).run text := rfl

theorem run_append (front back : Str) :
    s.run (front ++ back) = (s.run front).run back :=
  foldl_append

theorem scanChar_of_not_held (state : Tokenizer) (c : Char) :
    scanChar ⟨state, none⟩ c = scanPlain state c := rfl

/-- An operator is held where the next character does not double it. -/
theorem scanChar_release {state : Tokenizer} {held c : Char} (h : c ≠ held) :
    scanChar ⟨state, some held⟩ c =
      scanChar ⟨state.pushOperator [held], none⟩ c := by
  rw [scanChar, if_neg fun heq => h (Option.some.inj heq).symm]
  rfl

/-- The machine reads what the tokenizer reads. -/
theorem tokenizeLoop_eq (state : Tokenizer) (text : Str) :
    tokenizeLoop state text = (run ⟨state, none⟩ text).release := by
  induction state, text using tokenizeLoop.induct with
  | case1 state => rfl
  | case2 state c rest hescaped ih =>
    rw [tokenizeLoop.eq_def, run_cons, scanChar_of_not_held, scanPlain]
    simp only [hescaped, if_true, ih]
  | case3 state c rest hescaped hbackslash ih =>
    rw [tokenizeLoop.eq_def, run_cons, scanChar_of_not_held, scanPlain]
    simp only [if_neg hescaped, if_pos hbackslash, ih]
  | case4 state c rest hescaped hbackslash hquote ih =>
    rw [tokenizeLoop.eq_def, run_cons, scanChar_of_not_held, scanPlain]
    simp only [if_neg hescaped, if_neg hbackslash, if_pos hquote, ih]
  | case5 state c rest hescaped hbackslash hquote hnewline ih =>
    rw [tokenizeLoop.eq_def, run_cons, scanChar_of_not_held, scanPlain]
    simp only [if_neg hescaped, if_neg hbackslash, if_neg hquote,
      if_pos hnewline, ih]
  | case6 state c rest hescaped hbackslash hquote hnewline hspace ih =>
    rw [tokenizeLoop.eq_def, run_cons, scanChar_of_not_held, scanPlain]
    simp only [if_neg hescaped, if_neg hbackslash, if_neg hquote,
      if_neg hnewline, if_pos hspace, ih]
  | case7 state c hescaped hbackslash hquote hnewline hspace hop next after
      hdouble ih =>
      rw [tokenizeLoop.eq_def, run_cons, scanChar_of_not_held, scanPlain]
      simp only [if_neg hescaped, if_neg hbackslash, if_neg hquote,
        if_neg hnewline, if_neg hspace, if_pos hop, if_pos hdouble, ih]
      rw [if_pos hdouble.2, run_cons, scanChar, if_pos (by rw [hdouble.1]),
        hdouble.1]
  | case8 state c hescaped hbackslash hquote hnewline hspace hop next after
      hdouble ih =>
      rw [tokenizeLoop.eq_def, run_cons, scanChar_of_not_held, scanPlain]
      simp only [if_neg hescaped, if_neg hbackslash, if_neg hquote,
        if_neg hnewline, if_neg hspace, if_pos hop, if_neg hdouble, ih]
      by_cases hdoubled : isDoubled c = true
      · rw [if_pos hdoubled, run_cons, run_cons,
          scanChar_release fun heq => hdouble ⟨heq, hdoubled⟩]
      · rw [if_neg hdoubled]
  | case9 state c hescaped hbackslash hquote hnewline hspace hop =>
    rw [tokenizeLoop.eq_def, run_cons, scanChar_of_not_held, scanPlain]
    simp only [if_neg hescaped, if_neg hbackslash, if_neg hquote,
      if_neg hnewline, if_neg hspace, if_pos hop]
    by_cases hdoubled : isDoubled c = true
    · rw [if_pos hdoubled]; rfl
    · rw [if_neg hdoubled]; rfl
  | case10 state c rest hescaped hbackslash hquote hnewline hspace hop ih =>
    rw [tokenizeLoop.eq_def, run_cons, scanChar_of_not_held, scanPlain]
    simp only [if_neg hescaped, if_neg hbackslash, if_neg hquote,
      if_neg hnewline, if_neg hspace, if_neg hop, ih]

/-- The tokens read when a command ends here. -/
def finish : List Str := s.release.pushToken.tokens

theorem tokenizeShell_eq (command : Str) :
    tokenizeShell command = (run {} command).finish := by
  rw [tokenizeShell, tokenizeLoop_eq]
  rfl

variable (front : List Str)

theorem behind_release (s : Scanner) :
    (s.behind front).release = s.release.behind front := by
  rw [release, release]
  cases hheld : s.held with
  | none => simp only [behind, hheld]
  | some c =>
    simp only [behind, hheld]
    exact Tokenizer.behind_pushOperator front s.state [c]

theorem behind_scanPlain (state : Tokenizer) (c : Char) :
    scanPlain (state.behind front) c = (scanPlain state c).behind front := by
  have hescaped : (state.behind front).escaped = state.escaped := rfl
  have hquote : (state.behind front).quote = state.quote := rfl
  rw [scanPlain, scanPlain, hescaped, hquote, Tokenizer.behind_pushQuote,
    Tokenizer.behind_pushOperator, Tokenizer.behind_pushOperator,
    Tokenizer.behind_pushToken]
  simp only [apply_ite (behind front)]
  rfl

theorem behind_scanChar (s : Scanner) (c : Char) :
    (s.behind front).scanChar c = (s.scanChar c).behind front := by
  have hheld : (s.behind front).held = s.held := rfl
  rw [scanChar, scanChar, hheld, behind_release, behind_scanPlain]
  by_cases h : s.held = some c
  · rw [if_pos h, if_pos h]
    exact congrArg (Scanner.mk · none)
      (Tokenizer.behind_pushOperator front s.state [c, c])
  · rw [if_neg h, if_neg h]

theorem behind_run (s : Scanner) (text : Str) :
    (s.behind front).run text = (s.run text).behind front := by
  induction text generalizing s with
  | nil => rfl
  | cons c text ih => rw [run_cons, behind_scanChar, ih, run_cons]

/-- What is read behind some tokens does not change them. -/
theorem behind_finish (s : Scanner) :
    (s.behind front).finish = front ++ s.finish := by
  rw [finish, behind_release, Tokenizer.behind_pushToken, finish]
  rfl

end Scanner

/-- Tokens that end a stage, and nothing else. -/
def Separators (tokens : List Str) : Prop :=
  ∀ token ∈ tokens, isSeparator token = true

/-- The operators that may be doubled and end a stage. -/
def isDoubledSeparator (c : Char) : Bool := c == '&' || c == '|'

/-- White space and the operators that end a stage. -/
def isGapChar (c : Char) : Bool :=
  RustStr.isWhitespace c || c == ';' || isDoubledSeparator c

/-- A gap character that ends a stage. -/
def endsStage (c : Char) : Bool := c == '\n' || c == ';' || isDoubledSeparator c

theorem separator_doubled {c : Char} (h : isDoubledSeparator c = true) :
    isSeparator [c] = true ∧ isSeparator [c, c] = true := by
  rw [isDoubledSeparator, Bool.or_eq_true, beq_iff_eq, beq_iff_eq] at h
  rcases h with rfl | rfl <;> exact ⟨rfl, rfl⟩

theorem Separators.append {front back : List Str} (hfront : Separators front)
    (hback : Separators back) : Separators (front ++ back) := by
  intro token hmem
  rcases mem_append.mp hmem with h | h
  · exact hfront token h
  · exact hback token h

theorem Separators.snoc {tokens : List Str} {token : Str}
    (h : Separators tokens) (htoken : isSeparator token = true) :
    Separators (tokens ++ [token]) :=
  h.append fun _ hmem => mem_singleton.mp hmem ▸ htoken

theorem endsStage_cases {c : Char} (h : endsStage c = true) :
    c = '\n' ∨ c = ';' ∨ c = '&' ∨ c = '|' := by
  simpa [endsStage, isDoubledSeparator, or_assoc] using h

theorem not_whitespace_of_endsStage {c : Char} (h : endsStage c = true)
    (hnewline : c ≠ '\n') : ¬ RustStr.isWhitespace c = true := by
  rcases endsStage_cases h with rfl | rfl | rfl | rfl
  · exact absurd rfl hnewline
  all_goals decide

theorem gap_operator {c : Char} (h : isGapChar c = true)
    (hspace : ¬ RustStr.isWhitespace c = true) :
    c = ';' ∨ isDoubledSeparator c = true := by
  simpa [isGapChar, hspace] using h

theorem operator_of_doubled {c : Char} (h : isDoubledSeparator c = true) :
    isOperatorChar c = true := by
  rw [isDoubledSeparator, Bool.or_eq_true, beq_iff_eq, beq_iff_eq] at h
  rcases h with rfl | rfl <;> rfl

theorem doubled_of_doubled {c : Char} (h : isDoubledSeparator c = true) :
    isDoubled c = true := by
  rw [isDoubledSeparator, Bool.or_eq_true, beq_iff_eq, beq_iff_eq] at h
  rcases h with rfl | rfl <;> rfl

namespace Scanner

/-- Behind `front` only separators have been read, a held operator is one of
them, and no token is begun. -/
structure Rests (front ends : List Str) (s : Scanner) : Prop where
  quote : s.state.quote = none
  escaped : s.state.escaped = false
  separators : Separators ends
  finish : s.finish = front ++ ends
  held : ∀ c, s.held = some c → isDoubledSeparator c = true ∧
    ∃ before, ends = before ++ [[c]] ∧
      s.state.pushToken.tokens = front ++ before
  empty : s.held = none → s.state.current = []

variable {front ends : List Str}

theorem finish_operator (state : Tokenizer) (operator : Str) :
    finish ⟨state.pushOperator operator, none⟩ =
      state.pushToken.tokens ++ [operator] := by
  change (state.pushOperator operator).pushToken.tokens = _
  rw [Tokenizer.pushToken_tokens, Tokenizer.pushOperator]
  simp

theorem rests_operator {state : Tokenizer} {before : List Str} {operator : Str}
    (hquote : state.quote = none) (hescaped : state.escaped = false)
    (hbefore : Separators before)
    (htokens : state.pushToken.tokens = front ++ before)
    (hoperator : isSeparator operator = true) :
    Rests front (before ++ [operator]) ⟨state.pushOperator operator, none⟩ where
  quote := (state.pushToken_quote).trans hquote
  escaped := (state.pushToken_escaped).trans hescaped
  separators := hbefore.snoc hoperator
  finish := by rw [finish_operator, htokens, append_assoc]
  held := fun _ hheld => absurd hheld.symm (Option.some_ne_none _)
  empty := fun _ => state.pushToken_current

theorem not_special {c : Char} (hgap : isGapChar c = true) :
    c ≠ '\\' ∧ c ≠ '\'' ∧ c ≠ '"' := by
  refine ⟨?_, ?_, ?_⟩ <;> rintro rfl <;> revert hgap <;> decide

theorem rests_scanPlain {state : Tokenizer} {c : Char}
    (hquote : state.quote = none) (hescaped : state.escaped = false)
    (hends : Separators ends)
    (htokens : state.pushToken.tokens = front ++ ends)
    (hgap : isGapChar c = true) :
    ∃ ends', Rests front ends' (scanPlain state c) ∧
      (ends ≠ [] ∨ endsStage c = true → ends' ≠ []) := by
  obtain ⟨hbackslash, hsingle, hdouble⟩ := not_special hgap
  have hnot : ¬ state.escaped = true := by simp [hescaped]
  rw [scanPlain, if_neg hnot, if_neg fun h => hbackslash h.1,
    if_neg fun h => h.elim hsingle hdouble]
  by_cases hnewline : c = '\n'
  · rw [if_pos ⟨hquote, hnewline⟩]
    exact ⟨_, rests_operator hquote hescaped hends htokens rfl,
      fun _ => concat_ne_nil _ _⟩
  · rw [if_neg fun h => hnewline h.2]
    by_cases hspace : RustStr.isWhitespace c = true
    · rw [if_pos ⟨hquote, hspace⟩]
      refine ⟨ends, ⟨?_, ?_, hends, ?_, ?_, ?_⟩, ?_⟩
      · exact (state.pushToken_quote).trans hquote
      · exact (state.pushToken_escaped).trans hescaped
      · change state.pushToken.pushToken.tokens = _
        rw [Tokenizer.pushToken_tokens]
        simpa using htokens
      · exact fun _ hheld => absurd hheld.symm (Option.some_ne_none _)
      · exact fun _ => state.pushToken_current
      · rintro (h | h)
        · exact h
        · exact absurd hspace (not_whitespace_of_endsStage h hnewline)
    · rw [if_neg fun h => hspace h.2]
      rcases gap_operator hgap hspace with rfl | hdoubled
      · rw [if_pos ⟨hquote, rfl⟩]
        exact ⟨_, rests_operator hquote hescaped hends htokens rfl,
          fun _ => concat_ne_nil _ _⟩
      · rw [if_pos ⟨hquote, operator_of_doubled hdoubled⟩,
          if_pos (doubled_of_doubled hdoubled)]
        refine ⟨ends ++ [[c]], ⟨hquote, hescaped,
          hends.snoc (separator_doubled hdoubled).1, ?_, ?_, ?_⟩,
          fun _ => concat_ne_nil _ _⟩
        · exact (finish_operator state [c]).trans
            (by rw [htokens, append_assoc])
        · intro held hheld
          cases hheld
          exact ⟨hdoubled, ends, rfl, htokens⟩
        · exact fun hheld => absurd hheld (Option.some_ne_none _)

theorem release_quote (s : Scanner) : s.release.quote = s.state.quote := by
  rw [release]
  cases s.held with
  | none => rfl
  | some held => exact s.state.pushToken_quote

theorem release_escaped (s : Scanner) :
    s.release.escaped = s.state.escaped := by
  rw [release]
  cases s.held with
  | none => rfl
  | some held => exact s.state.pushToken_escaped

variable {s : Scanner}

/-- A gap keeps the machine behind the same tokens, and a character that ends a
stage leaves a separator. -/
theorem Rests.scanChar {c : Char} (h : Rests front ends s)
    (hgap : isGapChar c = true) :
    ∃ ends', Rests front ends' (s.scanChar c) ∧
      (ends ≠ [] ∨ endsStage c = true → ends' ≠ []) := by
  rw [Scanner.scanChar]
  by_cases hheld : s.held = some c
  · obtain ⟨hdoubled, before, hends, htokens⟩ := h.held c hheld
    rw [if_pos hheld]
    have hbefore : Separators before := fun token hmem =>
      h.separators token (hends ▸ mem_append_left _ hmem)
    exact ⟨_, rests_operator h.quote h.escaped hbefore htokens
      (separator_doubled hdoubled).2, fun _ => concat_ne_nil _ _⟩
  · rw [if_neg hheld]
    exact rests_scanPlain (s.release_quote.trans h.quote)
      (s.release_escaped.trans h.escaped) h.separators h.finish hgap

theorem Rests.run {text : Str} (h : Rests front ends s)
    (hgap : ∀ c ∈ text, isGapChar c = true) :
    ∃ ends', Rests front ends' (s.run text) ∧
      (ends ≠ [] ∨ (∃ c ∈ text, endsStage c = true) → ends' ≠ []) := by
  induction text generalizing s ends with
  | nil =>
    refine ⟨ends, h, ?_⟩
    rintro (hne | ⟨c, hmem, -⟩)
    · exact hne
    · exact absurd hmem not_mem_nil
  | cons c text ih =>
    rw [forall_mem_cons] at hgap
    obtain ⟨ends₁, h₁, hends₁⟩ := h.scanChar hgap.1
    obtain ⟨ends', h', hends'⟩ := ih h₁ hgap.2
    refine ⟨ends', h', fun hor => hends' ?_⟩
    rcases hor with hne | ⟨d, hmem, hd⟩
    · exact .inl (hends₁ (.inl hne))
    · rcases mem_cons.mp hmem with rfl | hmem
      · exact .inl (hends₁ (.inr hd))
      · exact .inr ⟨d, hmem, hd⟩

theorem held_scanPlain {state : Tokenizer} {c held : Char}
    (h : (scanPlain state c).held = some held) : isDoubled held = true := by
  rw [scanPlain] at h
  split_ifs at h with _ _ _ _ _ _ hdoubled
  exact Option.some.inj h ▸ hdoubled

/-- Only an operator that may be doubled is held. -/
theorem held_run {text : Str} (h : ∀ c, s.held = some c → isDoubled c = true) :
    ∀ c, (s.run text).held = some c → isDoubled c = true := by
  induction text generalizing s with
  | nil => exact h
  | cons c text ih =>
    apply ih
    intro held hheld
    rw [Scanner.scanChar] at hheld
    split_ifs at hheld
    exact held_scanPlain hheld

theorem doubledSeparator_of_gap {c : Char} (hgap : isGapChar c = true)
    (hdoubled : isDoubled c = true) : isDoubledSeparator c = true := by
  have hcases : c = '|' ∨ c = '&' ∨ c = '>' := by
    simpa [isDoubled, or_assoc] using hdoubled
  rcases hcases with rfl | rfl | rfl
  · rfl
  · rfl
  · exact absurd hgap (by decide)

theorem separators_nil : Separators [] :=
  fun _ hmem => absurd hmem not_mem_nil

/-- The first character of a gap comes to rest behind what has been read.  Only
an operator that it doubles is not part of that. -/
theorem rests_first {c : Char} (hquote : s.state.quote = none)
    (hescaped : s.state.escaped = false)
    (hheld : ∀ c, s.held = some c → isDoubled c = true)
    (hgap : isGapChar c = true) :
    ∃ front last ends, s.finish = front ++ last ∧ Separators last ∧
      Rests front ends (s.scanChar c) ∧ (endsStage c = true → ends ≠ []) := by
  rw [Scanner.scanChar]
  by_cases hsame : s.held = some c
  · have hdoubled := doubledSeparator_of_gap hgap (hheld c hsame)
    have htokens : s.state.pushToken.tokens = s.state.pushToken.tokens ++ [] :=
      (append_nil _).symm
    have hfinish : s.finish = s.state.pushToken.tokens ++ [[c]] := by
      rw [Scanner.finish, release, hsame]
      exact finish_operator s.state [c]
    rw [if_pos hsame]
    exact ⟨_, [[c]], _, hfinish,
      separators_nil.snoc (separator_doubled hdoubled).1,
      rests_operator hquote hescaped separators_nil htokens
        (separator_doubled hdoubled).2,
      fun _ => concat_ne_nil _ _⟩
  · rw [if_neg hsame]
    have hfinish : s.release.pushToken.tokens = s.finish ++ [] :=
      (append_nil _).symm
    obtain ⟨ends, hrests, hends⟩ :=
      rests_scanPlain (s.release_quote.trans hquote)
        (s.release_escaped.trans hescaped) separators_nil hfinish hgap
    exact ⟨_, [], ends, (append_nil _).symm, separators_nil, hrests,
      fun h => hends (.inr h)⟩

theorem rests_start : Rests [] [] {} where
  quote := rfl
  escaped := rfl
  separators := separators_nil
  finish := rfl
  held := fun _ hheld => absurd hheld.symm (Option.some_ne_none _)
  empty := fun _ => rfl

/-- Where no operator is doubled, reading goes on as at the beginning. -/
theorem Rests.scanChar_fresh {c : Char} (h : Rests front ends s)
    (hheld : s.held ≠ some c) :
    s.scanChar c = (Scanner.scanChar {} c).behind (front ++ ends) := by
  have hcurrent : s.release.current = [] := by
    rw [release]
    cases hcase : s.held with
    | none => exact h.empty hcase
    | some held => exact s.state.pushToken_current
  have htokens : s.release.tokens = front ++ ends := by
    have hfinish := h.finish
    rw [Scanner.finish, Tokenizer.pushToken_tokens, hcurrent] at hfinish
    simpa using hfinish
  have hrelease : s.release = Tokenizer.behind (front ++ ends) {} := by
    have hquote := s.release_quote.trans h.quote
    have hescaped := s.release_escaped.trans h.escaped
    revert hcurrent htokens hquote hescaped
    cases s.release with
    | mk tokens current quote escaped =>
      rintro rfl rfl rfl rfl
      simp [Tokenizer.behind]
  rw [Scanner.scanChar, if_neg hheld, hrelease, behind_scanPlain]
  rfl

/-- Two machines at rest read the same tokens of a text, behind what each has
read and separators. -/
theorem Rests.run_both {t : Scanner} {ends' : List Str}
    (hs : Rests front ends s) (ht : Rests [] ends' t) (text : Str) :
    ∃ e e' tokens, Separators e ∧ Separators e' ∧ (ends ≠ [] → e ≠ []) ∧
      (s.run text).finish = front ++ e ++ tokens ∧
      (t.run text).finish = e' ++ tokens := by
  induction text generalizing s t ends ends' with
  | nil =>
    exact ⟨ends, ends', [], hs.separators, ht.separators, id, hs.finish.trans
      (append_nil _).symm, ht.finish.trans (append_nil _).symm⟩
  | cons c text ih =>
    by_cases hheld : s.held = some c ∨ t.held = some c
    · have hgap : isGapChar c = true := by
        have hdoubled := hheld.elim (fun h => (hs.held c h).1)
          fun h => (ht.held c h).1
        rw [isGapChar, hdoubled, Bool.or_true]
      obtain ⟨e, hs', he⟩ := hs.scanChar hgap
      obtain ⟨e', ht', -⟩ := ht.scanChar hgap
      obtain ⟨e₁, e₁', tokens, h₁, h₁', hne, hfinish⟩ := ih hs' ht'
      exact ⟨e₁, e₁', tokens, h₁, h₁', fun h => hne (he (.inl h)), hfinish⟩
    · rw [not_or] at hheld
      refine ⟨ends, ends', (Scanner.run {} (c :: text)).finish, hs.separators,
        ht.separators, id, ?_, ?_⟩
      · rw [run_cons, hs.scanChar_fresh hheld.1, behind_run, behind_finish,
          run_cons]
      · rw [run_cons, ht.scanChar_fresh hheld.2, behind_run, behind_finish,
          run_cons, nil_append]

end Scanner

/-- A command ends with no open quotation and no backslash that escapes what
follows. -/
def EndsClosed (command : Str) : Prop :=
  (tokenizeLoop {} command).quote = none ∧
    (tokenizeLoop {} command).escaped = false

theorem tokenizeShell_gap {front gap : Str} (back : Str)
    (hclosed : EndsClosed front) (hgap : ∀ c ∈ gap, isGapChar c = true)
    (hends : ∃ c ∈ gap, endsStage c = true) :
    ∃ x last e first y, Separators last ∧ Separators e ∧ Separators first ∧
      e ≠ [] ∧ tokenizeShell front = x ++ last ∧
      tokenizeShell (front ++ gap ++ back) = x ++ e ++ y ∧
      tokenizeShell back = first ++ y := by
  rw [EndsClosed, Scanner.tokenizeLoop_eq, Scanner.release_quote,
    Scanner.release_escaped] at hclosed
  have hheld : ∀ c, (Scanner.run {} front).held = some c →
      isDoubled c = true :=
    Scanner.held_run fun _ h => absurd h.symm (Option.some_ne_none _)
  simp only [Scanner.tokenizeShell_eq, Scanner.run_append]
  cases gap with
  | nil =>
    obtain ⟨c, hmem, -⟩ := hends
    exact absurd hmem not_mem_nil
  | cons c gap =>
    rw [forall_mem_cons] at hgap
    obtain ⟨x, last, ends, hfinish, hlast, hrests, hfirst⟩ :=
      Scanner.rests_first hclosed.1 hclosed.2 hheld hgap.1
    obtain ⟨ends', hrests', hne⟩ := hrests.run hgap.2
    obtain ⟨e, first, y, he, hfirst', hne', hboth, hback⟩ :=
      hrests'.run_both Scanner.rests_start back
    refine ⟨x, last, e, first, y, hlast, he, hfirst', hne' (hne ?_), hfinish,
      hboth, hback⟩
    obtain ⟨d, hmem, hd⟩ := hends
    rcases mem_cons.mp hmem with rfl | hmem
    · exact .inl (hfirst hd)
    · exact .inr ⟨d, hmem, hd⟩

end NiceTerm.Capabilities
