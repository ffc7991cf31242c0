/-
The risk of two commands that are joined by an operator.  The tokens of the
whole are those of the parts with separators between them, and so nothing that
is found in a part is lost in the whole.
-/
import NiceTerm.Capabilities.Scanning

namespace NiceTerm.Capabilities

open List RustStr
open RustStr (Str)

/-- The levels from the lowest to the highest. -/
def RiskLevel.rank : RiskLevel → Nat
  | .low => 0
  | .medium => 1
  | .high => 2
  | .critical => 3

/-! ## The stages -/

theorem stagesLoop_separator {separator : Str}
    (h : isSeparator separator = true) (current front back : List Str) :
    stagesLoop current (front ++ separator :: back) =
      stagesLoop current front ++ stagesLoop [] back := by
  induction front generalizing current with
  | nil =>
    simp only [nil_append, stagesLoop, if_pos h]
    by_cases hempty : current.isEmpty = true
    · rw [if_pos hempty, if_pos hempty, nil_append]
    · rw [if_neg hempty, if_neg hempty, singleton_append]
  | cons token front ih =>
    simp only [cons_append, stagesLoop]
    by_cases hseparator : isSeparator token = true
    · rw [if_pos hseparator, if_pos hseparator, ih]
      by_cases hempty : current.isEmpty = true
      · rw [if_pos hempty, if_pos hempty]
      · rw [if_neg hempty, if_neg hempty, cons_append]
    · rw [if_neg hseparator, if_neg hseparator, ih, ih]
      by_cases hwrite : isWriteRedirection token = true
      · rw [if_pos hwrite, if_pos hwrite]
      · rw [if_neg hwrite, if_neg hwrite]

/-- A separator between two lists of tokens separates their stages. -/
theorem commandStages_separator {separator : Str}
    (h : isSeparator separator = true) (front back : List Str) :
    commandStages (front ++ separator :: back) =
      commandStages front ++ commandStages back :=
  stagesLoop_separator h [] front back

theorem commandStages_between {ends : List Str} (hne : ends ≠ [])
    (h : Separators ends) (front back : List Str) :
    commandStages (front ++ ends ++ back) =
      commandStages front ++ commandStages back := by
  induction ends generalizing front with
  | nil => exact absurd rfl hne
  | cons separator ends ih =>
    rw [append_assoc, cons_append,
      commandStages_separator (h separator mem_cons_self)]
    cases ends with
    | nil => rw [nil_append]
    | cons next ends =>
      have hnext : Separators (next :: ends) :=
        fun token hmem => h token (mem_cons_of_mem _ hmem)
      have hrest := ih (cons_ne_nil _ _) hnext []
      rw [nil_append] at hrest
      rw [hrest]
      rfl

theorem commandStages_before {ends : List Str} (h : Separators ends)
    (front : List Str) :
    commandStages (front ++ ends) = commandStages front := by
  cases ends with
  | nil => rw [append_nil]
  | cons separator ends =>
    have hstages := commandStages_between (cons_ne_nil separator ends) h
      front []
    rw [append_nil] at hstages
    rw [hstages]
    exact append_nil _

theorem commandStages_behind {ends : List Str} (h : Separators ends)
    (back : List Str) : commandStages (ends ++ back) = commandStages back := by
  cases ends with
  | nil => rw [nil_append]
  | cons separator ends =>
    exact commandStages_between (cons_ne_nil separator ends) h [] back

/-! ## The pipes -/

/-- A download is piped into a shell at a place of these tokens. -/
def PipesDownload (tokens : List Str) : Prop :=
  ∃ before after, tokens = before ++ ['|'] :: after ∧
    executableIn ["curl", "wget"] (stageBefore before.reverse) = true ∧
    executableIn ["sh", "bash", "zsh", "fish"] (stageAfter after) = true

variable {tokens : List Str}

theorem downloadPipeLoop_iff {passed : List Str} :
    downloadPipeLoop passed tokens = true ↔
      ∃ before after, tokens = before ++ ['|'] :: after ∧
        executableIn ["curl", "wget"]
          (stageBefore (before.reverse ++ passed)) = true ∧
        executableIn ["sh", "bash", "zsh", "fish"] (stageAfter after) =
          true := by
  induction tokens generalizing passed with
  | nil => simp [downloadPipeLoop]
  | cons token tokens ih =>
    rw [downloadPipeLoop, Bool.or_eq_true, Bool.and_eq_true,
      Bool.and_eq_true, ih]
    constructor
    · rintro (⟨⟨hpipe, hbefore⟩, hafter⟩ | ⟨before, after, heq, hrest⟩)
      · have htoken : ['|'] = token := by simpa [oneOf] using hpipe
        exact ⟨[], tokens, by rw [htoken]; rfl, hbefore, hafter⟩
      · refine ⟨token :: before, after, by rw [heq]; rfl, ?_⟩
        rw [reverse_cons, append_assoc]
        exact hrest
    · rintro ⟨before, after, heq, hbefore, hafter⟩
      cases before with
      | nil =>
        obtain ⟨rfl, rfl⟩ := cons.inj heq
        exact .inl ⟨⟨rfl, hbefore⟩, hafter⟩
      | cons first before =>
        obtain ⟨rfl, rfl⟩ := cons.inj heq
        rw [reverse_cons, append_assoc] at hbefore
        exact .inr ⟨before, after, rfl, hbefore, hafter⟩

theorem isDownloadPipeToShell_iff :
    isDownloadPipeToShell tokens = true ↔ PipesDownload tokens := by
  rw [isDownloadPipeToShell, downloadPipeLoop_iff]
  simp only [append_nil, PipesDownload]

theorem not_executableIn_nil (words : List String) :
    ¬ executableIn words [] = true := Bool.false_ne_true

/-- An item of a joined list is one of the first or of the second list. -/
theorem append_eq_append_cons {α : Type} {x y before after : List α} {a : α}
    (h : x ++ y = before ++ a :: after) :
    (∃ rest, x = before ++ a :: rest ∧ after = rest ++ y) ∨
      ∃ rest, before = x ++ rest ∧ y = rest ++ a :: after := by
  rcases append_eq_append_iff.mp h with ⟨rest, hx, hy⟩ | ⟨rest, hx, hy⟩
  · exact .inr ⟨rest, hx, hy⟩
  · cases rest with
    | nil =>
      rw [append_nil] at hx
      exact .inr ⟨[], by rw [hx, append_nil], hy.symm⟩
    | cons first rest =>
      obtain ⟨rfl, rfl⟩ := cons.inj hy
      exact .inl ⟨rest, hx, rfl⟩

theorem takeWhile_append_of_head {α : Type} {p : α → Bool} {back : List α}
    (h : ∀ a, back.head? = some a → p a = false) (front : List α) :
    (front ++ back).takeWhile p = front.takeWhile p := by
  induction front with
  | nil =>
    cases back with
    | nil => rfl
    | cons a back =>
      rw [nil_append, takeWhile_cons_of_neg
        (by rw [h a rfl]; exact Bool.false_ne_true)]
      rfl
  | cons a front ih =>
    rw [cons_append, takeWhile_cons, takeWhile_cons, ih]

section

variable {ends : List Str} (h : Separators ends)
include h

theorem Separators.head_append (hne : ends ≠ []) (back : List Str) :
    ∀ token, (ends ++ back).head? = some token →
      (!isSeparator token) = false := by
  intro token hhead
  rw [head?_append_of_ne_nil _ hne] at hhead
  rw [h token (mem_of_mem_head? hhead)]
  rfl

theorem Separators.reverse :
    Separators ends.reverse :=
  fun token hmem => h token (mem_reverse.mp hmem)

theorem stageAfter_append
    (front : List Str) : stageAfter (front ++ ends) = stageAfter front := by
  apply takeWhile_append_of_head
  intro token hhead
  rw [h token (mem_of_mem_head? hhead)]
  rfl

theorem stageAfter_between (hne : ends ≠ []) (front back : List Str) :
    stageAfter (front ++ (ends ++ back)) = stageAfter front :=
  takeWhile_append_of_head (h.head_append hne back) front

theorem stageBefore_append (back : List Str) :
    stageBefore (ends ++ back).reverse = stageBefore back.reverse := by
  rw [reverse_append]
  exact congrArg List.reverse (stageAfter_append h.reverse back.reverse)

theorem stageBefore_between (hne : ends ≠ []) (front back : List Str) :
    stageBefore (front ++ ends ++ back).reverse = stageBefore back.reverse := by
  rw [reverse_append, reverse_append]
  exact congrArg List.reverse (stageAfter_between h.reverse
    (reverse_eq_nil_iff.not.mpr hne) back.reverse front.reverse)

end

section

variable {x last ends first y : List Str}

theorem PipesDownload.of_front (hlast : Separators last)
    (hends : Separators ends) (hne : ends ≠ [])
    (h : PipesDownload (x ++ last)) : PipesDownload (x ++ ends ++ y) := by
  obtain ⟨before, after, heq, hbefore, hafter⟩ := h
  rcases append_eq_append_cons heq with ⟨rest, hx, rfl⟩ | ⟨rest, -, hy⟩
  · refine ⟨before, rest ++ (ends ++ y), by simp [hx], hbefore, ?_⟩
    rw [stageAfter_append hlast] at hafter
    rw [stageAfter_between hends hne]
    exact hafter
  · have hseparators : Separators after := fun token hmem =>
      hlast token (by simp [hy, hmem])
    have hnil := stageAfter_append hseparators []
    rw [nil_append] at hnil
    rw [hnil] at hafter
    exact absurd hafter (not_executableIn_nil _)

theorem PipesDownload.of_back (hfirst : Separators first)
    (hends : Separators ends) (hne : ends ≠ [])
    (h : PipesDownload (first ++ y)) : PipesDownload (x ++ ends ++ y) := by
  obtain ⟨before, after, heq, hbefore, hafter⟩ := h
  rcases append_eq_append_cons heq with ⟨rest, hx, -⟩ | ⟨rest, rfl, rfl⟩
  · have hseparators : Separators before := fun token hmem =>
      hfirst token (by simp [hx, hmem])
    have hnil := stageBefore_append hseparators []
    rw [append_nil] at hnil
    rw [hnil] at hbefore
    exact absurd hbefore (not_executableIn_nil _)
  · refine ⟨x ++ ends ++ rest, after, by simp, ?_, hafter⟩
    rw [stageBefore_append hfirst] at hbefore
    rw [stageBefore_between hends hne]
    exact hbefore

end

/-! ## The redirections -/

/-- A sensitive file is written at a place of these tokens. -/
def WritesSensitive (tokens : List Str) : Prop :=
  ∃ before operator target after,
    tokens = before ++ operator :: target :: after ∧
      isWriteRedirection operator = true ∧
      isSensitiveTerminalPath target = true

theorem hasSensitiveWriteRedirection_iff :
    hasSensitiveWriteRedirection tokens = true ↔ WritesSensitive tokens := by
  induction tokens with
  | nil => simp [hasSensitiveWriteRedirection, WritesSensitive]
  | cons token tokens ih =>
    cases tokens with
    | nil =>
      simp [hasSensitiveWriteRedirection, WritesSensitive, cons_eq_append_iff]
    | cons next tokens =>
      rw [hasSensitiveWriteRedirection, Bool.or_eq_true, Bool.and_eq_true, ih]
      constructor
      · rintro (hhere | ⟨before, operator, target, after, heq, hrest⟩)
        · exact ⟨[], token, next, tokens, rfl, hhere⟩
        · exact ⟨token :: before, operator, target, after,
            by rw [heq]; rfl, hrest⟩
      · rintro ⟨before, operator, target, after, heq, hhere⟩
        cases before with
        | nil =>
          simp only [nil_append, cons.injEq] at heq
          obtain ⟨rfl, rfl, rfl⟩ := heq
          exact .inl hhere
        | cons first before =>
          rw [cons_append, cons.injEq] at heq
          exact .inr ⟨before, operator, target, after, heq.2, hhere⟩

section

variable {token : Str} (h : isSeparator token = true)
include h

theorem separator_cases :
    token = [';'] ∨ token = ['&'] ∨ token = ['&', '&'] ∨
      token = ['|', '|'] ∨ token = ['|'] := by
  rw [isSeparator, oneOf, any_eq_true] at h
  obtain ⟨word, hmem, heq⟩ := h
  rw [beq_iff_eq] at heq
  subst heq
  simp only [mem_cons, not_mem_nil, or_false] at hmem
  rcases hmem with rfl | rfl | rfl | rfl | rfl <;> decide

theorem not_write_of_separator :
    ¬ isWriteRedirection token = true := by
  rcases separator_cases h with rfl | rfl | rfl | rfl | rfl <;> decide

theorem not_sensitive_of_separator :
    ¬ isSensitiveTerminalPath token = true := by
  rcases separator_cases h with rfl | rfl | rfl | rfl | rfl <;> decide

end

section

variable {x last ends first y : List Str}

theorem WritesSensitive.of_front (hlast : Separators last)
    (h : WritesSensitive (x ++ last)) : WritesSensitive (x ++ ends ++ y) := by
  obtain ⟨before, operator, target, after, heq, hwrite, hsensitive⟩ := h
  rcases append_eq_append_cons heq with ⟨rest, hx, hafter⟩ | ⟨rest, -, hy⟩
  · cases rest with
    | nil =>
      have hmem : target ∈ last := by
        rw [nil_append] at hafter
        exact hafter ▸ mem_cons_self
      exact absurd hsensitive (not_sensitive_of_separator (hlast target hmem))
    | cons next rest =>
      obtain ⟨rfl, -⟩ := cons.inj hafter
      exact ⟨before, operator, target, rest ++ (ends ++ y), by simp [hx],
        hwrite, hsensitive⟩
  · have hmem : operator ∈ last := by simp [hy]
    exact absurd hwrite (not_write_of_separator (hlast operator hmem))

theorem WritesSensitive.of_back (hfirst : Separators first)
    (h : WritesSensitive (first ++ y)) : WritesSensitive (x ++ ends ++ y) := by
  obtain ⟨before, operator, target, after, heq, hwrite, hsensitive⟩ := h
  rcases append_eq_append_cons heq with ⟨rest, hx, -⟩ | ⟨rest, -, hy⟩
  · have hmem : operator ∈ first := by simp [hx]
    exact absurd hwrite (not_write_of_separator (hfirst operator hmem))
  · exact ⟨x ++ ends ++ rest, operator, target, after, by simp [hy], hwrite,
      hsensitive⟩

end

/-! ## The levels -/

/-- What is found in the tokens of a part is found in those of the whole. -/
structure Covered (part whole : List Str) : Prop where
  stages : ∀ stage ∈ commandStages part, stage ∈ commandStages whole
  pipes : PipesDownload part → PipesDownload whole
  sensitive : WritesSensitive part → WritesSensitive whole
  writes : ∀ token ∈ part, isWriteRedirection token = true → token ∈ whole

section

variable {x last ends first y : List Str}

theorem covered_front (hlast : Separators last) (hends : Separators ends)
    (hne : ends ≠ []) : Covered (x ++ last) (x ++ ends ++ y) where
  stages := by
    rw [commandStages_before hlast, commandStages_between hne hends]
    exact fun _ hmem => mem_append_left _ hmem
  pipes := PipesDownload.of_front hlast hends hne
  sensitive := WritesSensitive.of_front hlast
  writes := by
    intro token hmem hwrite
    rcases mem_append.mp hmem with hx | hx
    · exact mem_append_left _ (mem_append_left _ hx)
    · exact absurd hwrite (not_write_of_separator (hlast token hx))

theorem covered_back (hfirst : Separators first) (hends : Separators ends)
    (hne : ends ≠ []) : Covered (first ++ y) (x ++ ends ++ y) where
  stages := by
    rw [commandStages_behind hfirst, commandStages_between hne hends]
    exact fun _ hmem => mem_append_right _ hmem
  pipes := PipesDownload.of_back hfirst hends hne
  sensitive := WritesSensitive.of_back hfirst
  writes := by
    intro token hmem hwrite
    rcases mem_append.mp hmem with hy | hy
    · exact absurd hwrite (not_write_of_separator (hfirst token hy))
    · exact mem_append_right _ hy

end

/-- One assessment is at least as severe as another. -/
def AtLeast (whole part : RiskAssessment) : Prop :=
  part.level.rank ≤ whole.level.rank ∧
    (whole.autoExecutable = true → part.autoExecutable = true)

theorem atLeast_critical (part : RiskAssessment) :
    AtLeast criticalRisk part := by
  refine ⟨?_, fun h => absurd h (by decide)⟩
  change part.level.rank ≤ 3
  cases part.level <;> decide

theorem assessStages_level (sawWrite : Bool) (stages : List (List Str)) :
    (assessStages sawWrite stages).level.rank ≤ 1 ∧
      ((assessStages sawWrite stages).level.rank = 0 ↔
        sawWrite = false ∧ ∀ stage ∈ stages, classifyStage stage = .readOnly) ∧
      ((assessStages sawWrite stages).autoExecutable = true ↔
        ∀ stage ∈ stages, classifyStage stage ≠ .unknown) := by
  induction stages generalizing sawWrite with
  | nil => cases sawWrite <;> simp [assessStages, risk, RiskLevel.rank]
  | cons stage stages ih =>
    rw [assessStages]
    cases hclass : classifyStage stage with
    | readOnly => simpa [hclass] using ih sawWrite
    | write =>
      have hwrite := ih true
      refine ⟨hwrite.1, ?_, ?_⟩
      · simp [hclass, hwrite.2.1]
      · simp [hclass, hwrite.2.2]
    | unknown => simp [hclass, risk, RiskLevel.rank]

theorem assessStages_atLeast {saw saw' : Bool} {part whole : List (List Str)}
    (hsaw : saw = true → saw' = true)
    (hstages : ∀ stage ∈ part, stage ∈ whole) :
    AtLeast (assessStages saw' whole) (assessStages saw part) := by
  obtain ⟨hle, hlow, hauto⟩ := assessStages_level saw part
  obtain ⟨-, hlow', hauto'⟩ := assessStages_level saw' whole
  refine ⟨?_, fun h => hauto.mpr fun stage hmem =>
    hauto'.mp h stage (hstages stage hmem)⟩
  by_cases hzero : (assessStages saw' whole).level.rank = 0
  · obtain ⟨hsaw', hread⟩ := hlow'.mp hzero
    have hnot : saw = false := by
      rw [← Bool.not_eq_true]
      intro h
      exact absurd (hsaw h) (by rw [hsaw']; exact Bool.false_ne_true)
    rw [hlow.mpr ⟨hnot, fun stage hmem => hread stage (hstages stage hmem)⟩]
    exact Nat.zero_le _
  · omega

theorem assessTokens_atLeast {part whole : List Str}
    (h : Covered part whole) (hne : commandStages part ≠ []) :
    AtLeast (assessTokens whole) (assessTokens part) := by
  have hany : ∀ p : List Str → Bool, (commandStages part).any p = true →
      (commandStages whole).any p = true := by
    intro p hp
    obtain ⟨stage, hmem, hstage⟩ := any_eq_true.mp hp
    exact any_eq_true.mpr ⟨stage, h.stages stage hmem, hstage⟩
  have hne' : commandStages whole ≠ [] := by
    obtain ⟨stage, hmem⟩ := exists_mem_of_ne_nil _ hne
    exact ne_nil_of_mem (h.stages stage hmem)
  have hpipes : isDownloadPipeToShell part = true →
      isDownloadPipeToShell whole = true := fun hpart =>
    isDownloadPipeToShell_iff.mpr
      (h.pipes (isDownloadPipeToShell_iff.mp hpart))
  have hsensitive : hasSensitiveWriteRedirection part = true →
      hasSensitiveWriteRedirection whole = true := fun hpart =>
    hasSensitiveWriteRedirection_iff.mpr
      (h.sensitive (hasSensitiveWriteRedirection_iff.mp hpart))
  have hwrites : part.any isWriteRedirection = true →
      whole.any isWriteRedirection = true := by
    intro hpart
    obtain ⟨token, hmem, hwrite⟩ := any_eq_true.mp hpart
    exact any_eq_true.mpr ⟨token, h.writes token hmem hwrite, hwrite⟩
  rw [assessTokens, assessTokens]
  simp only [isEmpty_eq_false_iff.mpr hne,
    isEmpty_eq_false_iff.mpr hne', Bool.false_eq_true, ↓reduceIte]
  by_cases hcritical : (commandStages whole).any isCriticalStage = true
  · rw [if_pos hcritical]
    exact atLeast_critical _
  · rw [if_neg hcritical, if_neg fun hp => hcritical (hany _ hp)]
    by_cases hhigh : (isDownloadPipeToShell whole ||
        hasSensitiveWriteRedirection whole ||
        (commandStages whole).any isHighRiskStage) = true
    · rw [if_pos hhigh]
      refine ⟨?_, fun h => absurd h (by decide)⟩
      change _ ≤ 2
      split
      · exact Nat.le_refl 2
      · exact Nat.le_succ_of_le (assessStages_level _ _).1
    · rw [if_neg hhigh, if_neg fun hp => hhigh ?_]
      · exact assessStages_atLeast hwrites h.stages
      · simp only [Bool.or_eq_true] at hp ⊢
        exact hp.imp (Or.imp hpipes hsensitive) (hany _)

/-! ## The texts -/

/-- A command as the tokenizer gets it. -/
def shellText (command : Str) : Str :=
  asciiLowercase (unixNewlines (RustStr.trim command))

/-- A carriage return and a newline are read together, also across the place
where two texts meet. -/
theorem unixNewlines_append {front back : Str}
    (h : front.getLast? ≠ some '\r' ∨ back.head? ≠ some '\n') :
    unixNewlines (front ++ back) = unixNewlines front ++ unixNewlines back := by
  have hrest : ∀ {c : Char} {rest : Str},
      (c :: rest).getLast? ≠ some '\r' ∨ back.head? ≠ some '\n' →
      rest.getLast? ≠ some '\r' ∨ back.head? ≠ some '\n' := by
    intro c rest
    exact Or.imp_left fun hlast hr => hlast (by simp [getLast?_cons, hr])
  induction front using unixNewlines.induct with
  | case1 => rfl
  | case2 rest ih =>
    rw [cons_append, cons_append, unixNewlines, unixNewlines,
      ih (hrest (hrest h)), cons_append]
  | case3 rest hnot ih =>
    have happend : ∀ rest', rest ++ back = '\n' :: rest' → False := by
      intro rest' heq
      cases rest with
      | nil =>
        rw [nil_append] at heq
        exact h.elim (fun hlast => hlast rfl) fun hhead =>
          hhead (by rw [heq]; rfl)
      | cons c rest =>
        rw [cons_append, cons.injEq] at heq
        exact hnot rest (by rw [heq.1])
    rw [cons_append, unixNewlines.eq_3 _ happend,
      unixNewlines.eq_3 _ hnot, ih (hrest h), cons_append]
  | case4 c rest hnot hnot' ih =>
    rw [cons_append, unixNewlines.eq_4 _ _ (fun _ hc _ => hnot' hc) hnot',
      unixNewlines.eq_4 _ _ hnot hnot', ih (hrest h), cons_append]

theorem mem_unixNewlines {text : Str} {c : Char} (h : c ∈ unixNewlines text) :
    c ∈ text ∨ c = '\n' := by
  induction text using unixNewlines.induct with
  | case1 => exact .inl h
  | case2 rest ih =>
    rw [unixNewlines] at h
    rcases mem_cons.mp h with rfl | h
    · exact .inr rfl
    · exact (ih h).imp_left fun hmem =>
        mem_cons_of_mem _ (mem_cons_of_mem _ hmem)
  | case3 rest hnot ih =>
    rw [unixNewlines.eq_3 _ hnot] at h
    rcases mem_cons.mp h with rfl | h
    · exact .inr rfl
    · exact (ih h).imp_left (mem_cons_of_mem _)
  | case4 d rest hnot hnot' ih =>
    rw [unixNewlines.eq_4 _ _ hnot hnot'] at h
    rcases mem_cons.mp h with rfl | h
    · exact .inl mem_cons_self
    · exact (ih h).imp_left (mem_cons_of_mem _)

/-- Only carriage returns are lost. -/
theorem mem_unixNewlines_of_mem {text : Str} {c : Char} (h : c ∈ text)
    (hne : c ≠ '\r') : c ∈ unixNewlines text := by
  induction text using unixNewlines.induct with
  | case1 => exact h
  | case2 rest ih =>
    rw [unixNewlines]
    rcases mem_cons.mp h with rfl | h
    · exact absurd rfl hne
    · rcases mem_cons.mp h with rfl | h
      · exact mem_cons_self
      · exact mem_cons_of_mem _ (ih h)
  | case3 rest hnot ih =>
    rw [unixNewlines.eq_3 _ hnot]
    rcases mem_cons.mp h with rfl | h
    · exact absurd rfl hne
    · exact mem_cons_of_mem _ (ih h)
  | case4 d rest hnot hnot' ih =>
    rw [unixNewlines.eq_4 _ _ hnot hnot']
    rcases mem_cons.mp h with rfl | h
    · exact mem_cons_self
    · exact mem_cons_of_mem _ (ih h)

theorem toLower_of_gap {c : Char} (h : isGapChar c = true) : c.toLower = c := by
  refine dif_neg ?_
  rintro ⟨hlow, hhigh⟩
  have hlow' : 65 ≤ c.toNat := hlow
  have hhigh' : c.toNat ≤ 90 := hhigh
  by_cases hspace : isWhitespace c = true
  · simp only [isWhitespace, Bool.or_eq_true, Bool.and_eq_true,
      decide_eq_true_eq, beq_iff_eq] at hspace
    omega
  · rcases gap_operator h hspace with rfl | hdoubled
    · exact absurd hlow' (by decide)
    · rw [isDoubledSeparator, Bool.or_eq_true, beq_iff_eq, beq_iff_eq]
        at hdoubled
      rcases hdoubled with rfl | rfl
      · exact absurd hlow' (by decide)
      · exact absurd hhigh' (by decide)

/-- The operators that compose two commands. -/
def compositionOperators : List Str :=
  ["\n".toList, ";".toList, "&".toList, "&&".toList, "||".toList]

theorem compositionOperator_gap {operator : Str}
    (h : operator ∈ compositionOperators) :
    (∀ c ∈ operator, isGapChar c = true ∧ c ≠ '\r') ∧
      ∃ c ∈ operator, endsStage c = true := by
  simp only [compositionOperators, mem_cons, not_mem_nil, or_false] at h
  have hgap : ∀ {text : Str}, (text.all fun c => isGapChar c && c != '\r') =
      true → ∀ c ∈ text, isGapChar c = true ∧ c ≠ '\r' := by
    intro text hall c hmem
    simpa using all_eq_true.mp hall c hmem
  have hends : ∀ {text : Str}, text.any endsStage = true →
      ∃ c ∈ text, endsStage c = true := any_eq_true.mp
  rcases h with rfl | rfl | rfl | rfl | rfl <;>
    exact ⟨hgap (by decide), hends (by decide)⟩

section

variable {a b operator : Str} (ha : RustStr.trim a ≠ [])
    (hb : RustStr.trim b ≠ []) (hoperator : operator ∈ compositionOperators)
include ha hb hoperator

/-- The text of a composition: the texts of the parts with a gap between
them. -/
theorem unixNewlines_composition :
    ∃ gap, (∀ c ∈ gap, isGapChar c = true) ∧ (∃ c ∈ gap, endsStage c = true) ∧
      unixNewlines (RustStr.trim (a ++ operator ++ b)) =
        unixNewlines (RustStr.trim a) ++ gap ++ unixNewlines (RustStr.trim b) := by
  obtain ⟨before, after, hbefore, hafter, htrim⟩ :=
    trim_append operator ha hb
  obtain ⟨hgap, c, hmem, hends⟩ := compositionOperator_gap hoperator
  refine ⟨unixNewlines (before ++ operator ++ after), ?_, ?_, ?_⟩
  · intro d hd
    rcases mem_unixNewlines hd with hd | rfl
    · rw [mem_append, mem_append] at hd
      rcases hd with (hd | hd) | hd
      · rw [isGapChar, hbefore d hd]; rfl
      · exact (hgap d hd).1
      · rw [isGapChar, hafter d hd]; rfl
    · rfl
  · refine ⟨c, mem_unixNewlines_of_mem ?_ (hgap c hmem).2, hends⟩
    exact mem_append_left _ (mem_append_right _ hmem)
  · rw [htrim, unixNewlines_append, unixNewlines_append]
    · refine .inl fun hlast => ?_
      exact absurd (last_trim hlast) (by decide)
    · refine .inr fun hhead => ?_
      exact absurd (head_trim hhead) (by decide)

theorem shellText_composition :
    ∃ gap, (∀ c ∈ gap, isGapChar c = true) ∧ (∃ c ∈ gap, endsStage c = true) ∧
      shellText (a ++ operator ++ b) = shellText a ++ gap ++ shellText b := by
  obtain ⟨gap, hgap, hends, htext⟩ := unixNewlines_composition ha hb hoperator
  refine ⟨gap, hgap, hends, ?_⟩
  have hlower : gap.map Char.toLower = gap :=
    (map_congr_left fun c hmem => toLower_of_gap (hgap c hmem)).trans
      (map_id gap)
  rw [shellText, htext, asciiLowercase, map_append, map_append, hlower]
  rfl

end

/-- The text of a fork bomb, without its white space. -/
def bombsFork (command : Str) : Bool :=
  containsStr forkBomb (splitWhitespace (unixNewlines (RustStr.trim command))).flatten

theorem containsStr_iff {needle : String} (hne : needle.toList ≠ [])
    {text : Str} :
    containsStr needle text = true ↔ needle.toList <:+: text := by
  rw [containsStr, ← not_iff_not, ← rfind_eq_none hne,
    Bool.not_eq_true, Option.isSome_eq_false_iff, Option.isNone_iff_eq_none]

theorem bombsFork_composition {a b operator : Str} (ha : RustStr.trim a ≠ [])
    (hb : RustStr.trim b ≠ []) (hoperator : operator ∈ compositionOperators)
    (h : bombsFork a = true ∨ bombsFork b = true) :
    bombsFork (a ++ operator ++ b) = true := by
  obtain ⟨gap, -, -, htext⟩ := unixNewlines_composition ha hb hoperator
  have hne : forkBomb.toList ≠ [] := by decide
  rw [bombsFork, bombsFork] at h
  rw [bombsFork, htext]
  simp only [containsStr_iff hne, flatten_splitWhitespace,
    filter_append] at h ⊢
  rcases h with h | h
  · exact h.trans ((prefix_append _ _).isInfix.trans
      (prefix_append _ _).isInfix)
  · exact h.trans (suffix_append _ _).isInfix

/-- The stages that are assessed of a command. -/
def assessedStages (command : Str) : List (List Str) :=
  commandStages (tokenizeShell (shellText command))

theorem assessCommandRisk_eq {command : Str} (h : assessedStages command ≠ []) :
    assessCommandRisk command =
      if bombsFork command = true then criticalRisk
      else assessTokens (tokenizeShell (shellText command)) := by
  have htext : (unixNewlines (RustStr.trim command)).isEmpty = false := by
    rw [isEmpty_eq_false_iff]
    intro hnil
    exact h (by rw [assessedStages, shellText, hnil]; rfl)
  have htokens : (tokenizeShell (shellText command)).isEmpty = false := by
    rw [isEmpty_eq_false_iff]
    intro hnil
    exact h (by rw [assessedStages, hnil]; rfl)
  rw [assessCommandRisk]
  simp only [htext, Bool.false_eq_true, ↓reduceIte]
  rw [shellText] at htokens
  simp only [htokens, Bool.false_eq_true, ↓reduceIte]
  rfl

theorem trim_ne_nil {command : Str} (h : assessedStages command ≠ []) :
    RustStr.trim command ≠ [] := by
  intro hnil
  exact h (by rw [assessedStages, shellText, hnil]; rfl)

/-- A part whose tokens are covered is not assessed more severely than the
whole. -/
theorem assessCommandRisk_atLeast {part whole : Str}
    (hpart : assessedStages part ≠ []) (hwhole : assessedStages whole ≠ [])
    (hbomb : bombsFork part = true → bombsFork whole = true)
    (hcovered : Covered (tokenizeShell (shellText part))
      (tokenizeShell (shellText whole))) :
    AtLeast (assessCommandRisk whole) (assessCommandRisk part) := by
  rw [assessCommandRisk_eq hpart, assessCommandRisk_eq hwhole]
  by_cases hwholeBomb : bombsFork whole = true
  · rw [if_pos hwholeBomb]
    exact atLeast_critical _
  · rw [if_neg hwholeBomb, if_neg fun h => hwholeBomb (hbomb h)]
    exact assessTokens_atLeast hcovered hpart

/-- Composing commands does not lower their risk. -/
theorem risk_of_composition (a b operator : Str)
    (hoperator : operator ∈ compositionOperators)
    (hclosed : EndsClosed (shellText a))
    (ha : assessedStages a ≠ []) (hb : assessedStages b ≠ []) :
    max (assessCommandRisk a).level.rank (assessCommandRisk b).level.rank ≤
        (assessCommandRisk (a ++ operator ++ b)).level.rank ∧
      ((assessCommandRisk (a ++ operator ++ b)).autoExecutable = true →
        (assessCommandRisk a).autoExecutable = true ∧
          (assessCommandRisk b).autoExecutable = true) := by
  obtain ⟨gap, hgap, hends, htext⟩ :=
    shellText_composition (trim_ne_nil ha) (trim_ne_nil hb) hoperator
  obtain ⟨x, last, ends, first, y, hlast, hseparators, hfirst, hne, hfront,
    hwhole, hback⟩ := tokenizeShell_gap (shellText b) hclosed hgap hends
  rw [← htext] at hwhole
  have hbomb := bombsFork_composition (trim_ne_nil ha) (trim_ne_nil hb)
    hoperator
  have hcoverA : Covered (x ++ last) (x ++ ends ++ y) :=
    covered_front hlast hseparators hne
  have hcoverB : Covered (first ++ y) (x ++ ends ++ y) :=
    covered_back hfirst hseparators hne
  rw [← hfront, ← hwhole] at hcoverA
  rw [← hback, ← hwhole] at hcoverB
  have hcomposed : assessedStages (a ++ operator ++ b) ≠ [] := by
    obtain ⟨stage, hmem⟩ := exists_mem_of_ne_nil _ ha
    exact ne_nil_of_mem (hcoverA.stages stage hmem)
  have hleastA := assessCommandRisk_atLeast ha hcomposed
    (fun h => hbomb (.inl h)) hcoverA
  have hleastB := assessCommandRisk_atLeast hb hcomposed
    (fun h => hbomb (.inr h)) hcoverB
  exact ⟨Nat.max_le.mpr ⟨hleastA.1, hleastB.1⟩,
    fun h => ⟨hleastA.2 h, hleastB.2 h⟩⟩

theorem risk_of_listing_and_removal :
    max (assessCommandRisk "ls -la".toList).level.rank
        (assessCommandRisk "rm old".toList).level.rank ≤ (assessCommandRisk
          ("ls -la".toList ++ "&&".toList ++ "rm old".toList)).level.rank ∧
      ((assessCommandRisk ("ls -la".toList ++ "&&".toList ++
          "rm old".toList)).autoExecutable = true →
        (assessCommandRisk "ls -la".toList).autoExecutable = true ∧
          (assessCommandRisk "rm old".toList).autoExecutable = true) :=
  risk_of_composition _ _ _ (by decide)
    ⟨by decide +kernel, by decide +kernel⟩ (by decide +kernel)
    (by decide +kernel)

/-- An escaped space at the end of a command is trimmed where the command
stands alone, and is a part of its last argument where another follows. -/
theorem escaped_space_lowers_risk :
    EndsClosed "rm -rf /\\ ".toList ∧ "rm -rf /\\ ".toList.getLast? ≠ some '\\'
      ∧ assessedStages "rm -rf /\\ ".toList ≠ [] ∧ assessedStages "ls".toList ≠
      [] ∧ ";".toList ∈ compositionOperators ∧ (assessCommandRisk
          ("rm -rf /\\ ".toList ++ ";".toList ++ "ls".toList)).level.rank <
        (assessCommandRisk "rm -rf /\\ ".toList).level.rank := by
  refine ⟨⟨?_, ?_⟩, ?_, ?_, ?_, ?_, ?_⟩ <;> decide +kernel

end NiceTerm.Capabilities
