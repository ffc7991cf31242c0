/-
The lines of a Telnet server in which a prompt is looked for.  Keywords are
found in a copy of the line in lower case, and the offsets in that copy are
used to cut the line itself.
-/
import NiceTerm.Lib.Fallible
import NiceTerm.Recording.Search

namespace NiceTerm.Telnet

open List RustStr
open Recording (Unicode KeepsShape)
open RustStr (Str)

/-- Why a loop over slices has no result: the turns allowed to it are used up,
or a slice has panicked. -/
inductive Stop
  | running
  | panicked
deriving DecidableEq, Repr

def sliceFrom (text : Str) (start : Nat) : Except Stop Str :=
  if isCharBoundary text start then
    .ok (RustStr.splitAt text start).2
  else .error .panicked

def pushPromptCandidate (prompts : List Str) (prompt : Str) : List Str :=
  if prompt = [] ∨ prompt ∈ prompts then prompts else prompts ++ [prompt]

def keywords : List Str :=
  ["user name".toList, "username".toList, "login".toList, "logon".toList,
    "account".toList, "userid".toList, "user id".toList, "user".toList,
    "password".toList, "passwd".toList, "passcode".toList,
    "passphrase".toList, "pin".toList, "用户名".toList, "帐号".toList,
    "账号".toList, "登录".toList, "登入".toList, "密码".toList, "口令".toList]

/-- The candidate that begins at an offset. -/
def pushSuffix (prompt : Str) (prompts : List Str) (start : Nat) :
    Except Stop (List Str) :=
  (sliceFrom prompt start).map fun suffix =>
    pushPromptCandidate prompts (trim suffix)

/-- The loop over the places of one keyword in the copy in lower case. -/
def suffixLoop (prompt lower keyword : Str) :
    Nat → Nat → List Str → Except Stop (List Str)
  | 0, _, _ => .error .running
  | turns + 1, searchStart, prompts => do
    let rest ← sliceFrom lower searchStart
    match find keyword rest with
    | none => .ok prompts
    | some offset => do
      let start := searchStart + len (rest.take offset)
      let prompts ← pushSuffix prompt prompts start
      let searchStart := start + len keyword
      if len lower ≤ searchStart then .ok prompts
      else suffixLoop prompt lower keyword turns searchStart prompts

variable (unicode : Unicode) (prompts : List Str) (prompt : Str)

/-- Every turn passes a keyword, so a turn for each byte is enough. -/
def pushPromptSuffixCandidates : Except Stop (List Str) :=
  let lower := unicode.toLowercase prompt
  keywords.foldlM (fun prompts keyword =>
      suffixLoop prompt lower keyword (len lower + 1) 0 prompts)
    prompts

def promptCandidates (window currentInput : Str) : Except Stop (List Str) :=
  ([window, currentInput].flatMap lines).foldlM (fun prompts line =>
      let prompt := trim line
      pushPromptSuffixCandidates unicode (pushPromptCandidate prompts prompt)
        prompt)
    []

/-- A trimmed rest of the line that begins with a keyword. -/
def Candidate (candidate : Str) : Prop :=
  (∃ front back, prompt = front ++ back ∧ candidate = trim back) ∧
    ∃ keyword ∈ keywords, keyword <+: unicode.toLowercase candidate

/-- The line is cut without a panic, and what is added begins with a keyword. -/
def Pushed (outcome : Except Stop (List Str)) : Prop :=
  ∃ added, outcome = .ok (prompts ++ added) ∧
    ∀ candidate ∈ added, Candidate unicode prompt candidate

/-- The offset of each keyword in the copy is one of the line itself, and
behind it there is nothing new or a keyword again. -/
def Aligned : Prop :=
  ∀ keyword ∈ keywords, ∀ before after,
    unicode.toLowercase prompt = before ++ keyword ++ after →
      ∃ front back, prompt = front ++ back ∧ len front = len
        before ∧ (trim back = [] ∨ trim back ∈ prompts ∨
          ∃ k ∈ keywords, k <+: unicode.toLowercase (trim back))

theorem sliceFrom_eq_ok {text back : Str} {start : Nat} :
    sliceFrom text start = .ok back ↔
      ∃ front, text = front ++ back ∧ len front = start := by
  rw [sliceFrom]
  constructor
  · intro h
    by_cases hboundary : isCharBoundary text start = true
    · rw [if_pos hboundary] at h
      obtain rfl := Except.ok.inj h
      exact ⟨_, (splitAt_append text start).symm, len_splitAt hboundary⟩
    · rw [if_neg hboundary] at h
      cases h
  · rintro ⟨front, rfl, rfl⟩
    rw [isCharBoundary_len_append, if_pos rfl,
      splitAt_len_append]

theorem sliceFrom_eq_error {text : Str} {start : Nat}
    (h : ∀ back, sliceFrom text start ≠ .ok back) :
    sliceFrom text start = .error .panicked := by
  rw [sliceFrom] at h ⊢
  by_cases hboundary : isCharBoundary text start = true
  · rw [if_pos hboundary] at h
    exact absurd rfl (h _)
  · rw [if_neg hboundary]

theorem len_front_unique {front back front' back' : Str}
    (h : front ++ back = front' ++ back')
    (hlen : len front = len front') : back = back' := by
  have hslice : sliceFrom (front ++ back) (len front) = .ok back :=
    sliceFrom_eq_ok.mpr ⟨front, rfl, rfl⟩
  have hslice' : sliceFrom (front ++ back) (len front) = .ok back' :=
    sliceFrom_eq_ok.mpr ⟨front', h, hlen.symm⟩
  exact Except.ok.inj (hslice.symm.trans hslice')

/-- The candidate that begins at an offset is there afterwards, unless it is
empty. -/
theorem pushPromptCandidate_spec :
    ∃ added, pushPromptCandidate prompts prompt = prompts ++ added ∧
      (∀ candidate ∈ added, candidate = prompt ∧ candidate ≠ [] ∧
        candidate ∉ prompts) ∧
      (prompt = [] ∨ prompt ∈ prompts ∨ prompt ∈ added) := by
  rw [pushPromptCandidate]
  by_cases h : prompt = [] ∨ prompt ∈ prompts
  · rw [if_pos h]
    refine ⟨[], (append_nil _).symm, ?_, ?_⟩
    · exact fun candidate hmem => absurd hmem not_mem_nil
    · exact h.imp_right .inl
  · rw [if_neg h]
    refine ⟨[prompt], rfl, ?_, .inr (.inr mem_cons_self)⟩
    rw [forall_mem_singleton]
    exact ⟨rfl, not_or.mp h⟩

/-- What comes of cutting the line at some offsets: all of them are in the line
and the candidates are the rests behind them, or a slice panics. -/
theorem pushSuffixes_cases (offsets : List Nat) (prompts : List Str) :
    (offsets.foldlM (pushSuffix prompt) prompts = .error .panicked ∧
        ∃ start ∈ offsets, ∀ back, sliceFrom prompt start ≠ .ok back) ∨
      ∃ added, offsets.foldlM (pushSuffix prompt) prompts =
          .ok (prompts ++ added) ∧
        (∀ start ∈ offsets, ∃ back, sliceFrom prompt start = .ok back ∧
          (trim back = [] ∨ trim back ∈ prompts ∨
            trim back ∈ added)) ∧
        ∀ candidate ∈ added, (candidate ≠ [] ∧ candidate ∉ prompts) ∧
          ∃ start ∈ offsets, ∃ back, sliceFrom prompt start = .ok back ∧
            candidate = trim back := by
  induction offsets generalizing prompts with
  | nil =>
    refine .inr ⟨[], by rw [append_nil]; rfl, ?_, ?_⟩
    · exact fun start hmem => absurd hmem not_mem_nil
    · exact fun candidate hmem => absurd hmem not_mem_nil
  | cons start offsets ih =>
    rw [foldlM_cons]
    by_cases hslice : ∃ back, sliceFrom prompt start = .ok back
    · obtain ⟨back, hback⟩ := hslice
      have hpush : pushSuffix prompt prompts start =
          .ok (pushPromptCandidate prompts (trim back)) := by
        rw [pushSuffix, hback]
        rfl
      obtain ⟨first, hfirst, hsame, hthere⟩ :=
        pushPromptCandidate_spec prompts (trim back)
      rw [hpush, hfirst]
      change (offsets.foldlM (pushSuffix prompt) (prompts ++ first) = _ ∧ _) ∨
        ∃ added, offsets.foldlM (pushSuffix prompt) (prompts ++ first) = _ ∧ _
      rcases ih (prompts ++ first) with
        ⟨hpanic, late, hmem, hlate⟩ | ⟨rest, hrest, hoffsets, hadded⟩
      · exact .inl ⟨hpanic, late, mem_cons_of_mem _ hmem, hlate⟩
      · refine .inr ⟨first ++ rest, ?_, ?_, ?_⟩
        · rw [hrest, append_assoc]
        · rw [forall_mem_cons]
          refine ⟨⟨back, hback, ?_⟩, fun late hmem => ?_⟩
          · exact hthere.imp_right (Or.imp_right (mem_append_left rest))
          · obtain ⟨back', hback', hplace⟩ := hoffsets late hmem
            refine ⟨back', hback', ?_⟩
            rw [mem_append, or_assoc] at hplace
            rwa [mem_append]
        · intro candidate hmem
          rcases mem_append.mp hmem with hmem | hmem
          · obtain ⟨heq, hnew⟩ := hsame candidate hmem
            exact ⟨hnew, start, mem_cons_self, back, hback, heq⟩
          · obtain ⟨⟨hne, hnew⟩, late, hlate, hcandidate⟩ :=
              hadded candidate hmem
            exact ⟨⟨hne, fun hold => hnew (mem_append_left _ hold)⟩,
              late, mem_cons_of_mem _ hlate, hcandidate⟩
    · have hslice := not_exists.mp hslice
      refine .inl ⟨?_, start, mem_cons_self, hslice⟩
      rw [pushSuffix, sliceFrom_eq_error hslice]
      rfl

/-- The offsets at which the loop cuts the line. -/
def offsets (keyword : Str) : Nat → Str → Str → List Nat
  | 0, _, _ => []
  | turns + 1, passed, rest =>
    match find keyword rest with
    | none => []
    | some offset =>
      let before := passed ++ rest.take offset
      len before :: offsets keyword turns (before ++ keyword)
        (rest.drop (offset + keyword.length))

theorem offsets_nil {keyword : Str} (hne : keyword ≠ []) (turns : Nat)
    (passed : Str) : offsets keyword turns passed [] = [] := by
  cases turns with
  | zero => rfl
  | succ turns =>
    rw [offsets, (find_eq_none hne).mpr (by simpa using hne)]

theorem suffixLoop_eq_foldlM {keyword : Str} (hne : keyword ≠ [])
    (turns : Nat) (passed rest : Str) (prompts : List Str)
    (hturns : len rest < turns) :
    suffixLoop prompt (passed ++ rest) keyword turns (len passed) prompts =
      (offsets keyword turns passed rest).foldlM (pushSuffix prompt)
        prompts := by
  induction turns generalizing passed rest prompts with
  | zero => exact absurd hturns (Nat.not_lt_zero _)
  | succ turns ih =>
    have hrest : sliceFrom (passed ++ rest) (len passed) = .ok rest :=
      sliceFrom_eq_ok.mpr ⟨passed, rfl, rfl⟩
    rw [suffixLoop, offsets, hrest]
    change (match find keyword rest with
      | none => _
      | some offset => _) = _
    cases hfind : find keyword rest with
    | none => rfl
    | some offset =>
      have hsplit := (find_eq_some hfind).1
      change (pushSuffix prompt prompts
          (len passed + len (rest.take offset)) >>= _) =
        (cons (len (passed ++ rest.take offset)) _).foldlM _ _
      rw [foldlM_cons, ← len_append]
      refine bind_congr fun prompts => ?_
      generalize rest.take offset = before at hsplit
      generalize rest.drop (offset + keyword.length) = after at hsplit
      subst hsplit
      have hpos := len_pos_of_ne_nil hne
      simp only [len_append] at hturns
      have hbehind : len (passed ++ before) + len keyword =
          len (passed ++ before ++ keyword) := by
        rw [len_append _ keyword]
      have htext : passed ++ (before ++ keyword ++ after) =
          passed ++ before ++ keyword ++ after := by
        simp only [append_assoc]
      rw [hbehind, htext, len_append _ after]
      by_cases hend : len after = 0
      · have hnil : after = [] := by
          by_contra hne'
          exact absurd (len_pos_of_ne_nil hne') (by omega)
        rw [if_pos (by omega), hnil, offsets_nil hne]
        rfl
      · rw [if_neg (by omega)]
        exact ih _ _ _ (by omega)

theorem keywords_spec : ∀ keyword ∈ keywords, keyword ≠ [] ∧
    Occurrences.Unbordered keyword ∧ trim keyword = keyword := by
  have hall : keywords.all (fun keyword => !keyword.isEmpty &&
      trim keyword == keyword &&
      (List.range keyword.length).all fun k => k == 0 ||
        !(keyword.drop k == keyword.take (keyword.length - k))) = true := by
    decide +kernel
  intro keyword hmem
  have hkeyword := all_eq_true.mp hall keyword hmem
  rw [Bool.and_eq_true, Bool.and_eq_true, all_eq_true] at hkeyword
  refine ⟨by simpa using hkeyword.1.1, fun k hlt hpos heq => ?_,
    beq_iff_eq.mp hkeyword.1.2⟩
  have hk := hkeyword.2 k (mem_range.mpr hlt)
  rw [heq] at hk
  simp only [beq_self_eq_true, Bool.not_true, Bool.or_false, beq_iff_eq] at hk
  omega

/-- Every place of the keyword is reached. -/
theorem mem_offsets {keyword : Str} (hne : keyword ≠ [])
    (hkeyword : Occurrences.Unbordered keyword) {start : Nat} (turns : Nat)
    (passed rest : Str) (hturns : len rest < turns) :
    start ∈ offsets keyword turns passed rest ↔
      ∃ before after, Occurrences.At keyword rest before after ∧
        start = len (passed ++ before) := by
  induction turns generalizing passed rest with
  | zero => exact absurd hturns (Nat.not_lt_zero _)
  | succ turns ih =>
    rw [offsets]
    cases hfind : find keyword rest with
    | none =>
      refine iff_of_false not_mem_nil ?_
      rintro ⟨before, after, hat, -⟩
      exact (find_eq_none hne).mp hfind
        ⟨before, after, hat.symm⟩
    | some offset =>
      obtain ⟨hsplit, hleast⟩ := find_eq_some hfind
      have hfirst : Occurrences.First keyword rest (rest.take offset)
          (rest.drop (offset + keyword.length)) :=
        ⟨hsplit, fun b a hat =>
          (length_take_le offset rest).trans (hleast b a hat)⟩
      have hafter : len (rest.drop (offset + keyword.length)) <
          turns := by
        have hpos := len_pos_of_ne_nil hne
        rw [hsplit] at hturns
        simp only [len_append] at hturns
        omega
      simp only [mem_cons]
      rw [ih _ _ hafter]
      constructor
      · rintro (hstart | ⟨before, after, hat, hstart⟩)
        · exact ⟨_, _, hsplit, hstart⟩
        · refine ⟨_, after, (Occurrences.Counted.next hfirst
            (hat.counted hne (hat.apart hkeyword))).occurs, ?_⟩
          rw [hstart]
          simp only [len_append, Nat.add_assoc]
      · rintro ⟨before, after, hat, hstart⟩
        rcases (Occurrences.counted_iff hfirst).mp
          (hat.counted hne (hat.apart hkeyword)) with ⟨rfl, -⟩ | ⟨b, rfl, hrest⟩
        · exact .inl hstart
        · refine .inr ⟨b, after, hrest.occurs, ?_⟩
          rw [hstart]
          simp only [len_append, Nat.add_assoc]

/-- Every offset at which the line is cut. -/
def cuts : List Nat :=
  let lower := unicode.toLowercase prompt
  keywords.flatMap fun keyword =>
    offsets keyword (len lower + 1) [] lower

theorem pushPromptSuffixCandidates_eq :
    pushPromptSuffixCandidates unicode prompts prompt =
      (cuts unicode prompt).foldlM (pushSuffix prompt) prompts := by
  rw [cuts, Folding.foldlM_flatMap, pushPromptSuffixCandidates]
  have hloop : ∀ keyword ∈ keywords, ∀ prompts,
      suffixLoop prompt (unicode.toLowercase prompt) keyword
          (len (unicode.toLowercase prompt) + 1) 0 prompts =
        (offsets keyword (len (unicode.toLowercase prompt) + 1) []
          (unicode.toLowercase prompt)).foldlM (pushSuffix prompt) prompts :=
    fun keyword hmem prompts =>
      suffixLoop_eq_foldlM prompt (keywords_spec keyword hmem).1 _ [] _
        prompts (Nat.lt_succ_self _)
  exact Folding.foldlM_congr hloop prompts

theorem mem_cuts {unicode : Unicode} {prompt : Str} {start : Nat} :
    start ∈ cuts unicode prompt ↔ ∃ keyword ∈ keywords, ∃ before after,
      unicode.toLowercase prompt = before ++ keyword ++ after ∧
        start = len before := by
  rw [cuts, mem_flatMap]
  refine exists_congr fun keyword => and_congr_right fun hmem => ?_
  have hkeyword := keywords_spec keyword hmem
  exact mem_offsets hkeyword.1 hkeyword.2.1 _ [] _ (Nat.lt_succ_self _)

/-- The loops end, and the line is cut where it may be cut, and into candidates,
exactly if each offset of a keyword in the copy is one in the line and a keyword
stands there, or nothing that would be added. -/
theorem suffix_candidates_iff (unicode : Unicode) (prompts : List Str)
    (prompt : Str) :
    pushPromptSuffixCandidates unicode prompts prompt ≠ .error .running ∧
      (Pushed unicode prompts prompt
          (pushPromptSuffixCandidates unicode prompts prompt) ↔
        Aligned unicode prompts prompt) := by
  rw [pushPromptSuffixCandidates_eq]
  rcases pushSuffixes_cases prompt (cuts unicode prompt) prompts with
    ⟨hpanic, start, hmem, hslice⟩ | ⟨added, hok, hcuts, hadded⟩
  · rw [hpanic]
    refine ⟨(by simp), iff_of_false ?_ ?_⟩
    · rintro ⟨added, hok, -⟩
      cases hok
    · intro haligned
      obtain ⟨keyword, hkeyword, before, after, hlower, rfl⟩ := mem_cuts.mp hmem
      obtain ⟨front, back, hprompt, hlen, -⟩ :=
        haligned keyword hkeyword before after hlower
      exact hslice back (sliceFrom_eq_ok.mpr ⟨front, hprompt, hlen⟩)
  · rw [hok]
    refine ⟨(by simp), ?_, ?_⟩
    · rintro ⟨added', heq, hcandidates⟩ keyword hkeyword before after hlower
      obtain rfl := append_cancel_left (Except.ok.inj heq)
      obtain ⟨back, hback, hplace⟩ := hcuts _
        (mem_cuts.mpr ⟨keyword, hkeyword, before, after, hlower, rfl⟩)
      obtain ⟨front, hprompt, hlen⟩ := sliceFrom_eq_ok.mp hback
      refine ⟨front, back, hprompt, hlen, ?_⟩
      exact hplace.imp_right (Or.imp_right fun hmem =>
        (hcandidates _ hmem).2)
    · intro haligned
      refine ⟨added, rfl, fun candidate hmem => ?_⟩
      obtain ⟨⟨hne, hnew⟩, start, hstart, back, hback, rfl⟩ :=
        hadded candidate hmem
      obtain ⟨front, hprompt, hlen⟩ := sliceFrom_eq_ok.mp hback
      refine ⟨⟨front, back, hprompt, rfl⟩, ?_⟩
      obtain ⟨keyword, hkeyword, before, after, hlower, rfl⟩ :=
        mem_cuts.mp hstart
      obtain ⟨front', back', hprompt', hlen', hplace⟩ :=
        haligned keyword hkeyword before after hlower
      obtain rfl := len_front_unique (hprompt.symm.trans hprompt')
        (hlen.trans hlen'.symm)
      rcases hplace with hnil | hold | hkeyword
      · exact absurd hnil hne
      · exact absurd hold hnew
      · exact hkeyword

/-- It is so for every line whose lower case keeps the widths and the white
space. -/
theorem aligned_of_keepsShape {unicode : Unicode} {prompt : Str}
    (h : KeepsShape unicode isWhitespace prompt) (prompts : List Str) :
    Aligned unicode prompts prompt := by
  intro keyword hmem before after hlower
  rw [h.toLowercase_eq, append_assoc, eq_comm, append_eq_map_iff] at hlower
  obtain ⟨front, back, rfl, rfl, hback⟩ := hlower
  have hfront : KeepsShape unicode isWhitespace front :=
    h.of_subset fun c hc => mem_append_left back hc
  have hkeeps : KeepsShape unicode isWhitespace back :=
    h.of_subset fun c hc => mem_append_right front hc
  refine ⟨front, back, rfl, hfront.len_map.symm,
    .inr (.inr ⟨keyword, hmem, ?_⟩)⟩
  have htrimmed : KeepsShape unicode isWhitespace (trim back) :=
    hkeeps.of_subset fun c hc => mem_of_mem_trim hc
  rw [htrimmed.toLowercase_eq,
    ← trim_map fun c hc => (hkeeps.lowered_eq hc).2.2, hback]
  obtain ⟨hne, -, htrim⟩ := keywords_spec keyword hmem
  obtain ⟨rest, hrest⟩ := trim_append_right hne htrim after
  exact ⟨rest, hrest.symm⟩

/-- Lower case in which one letter of two bytes has three. -/
def wideLowercase : Unicode where
  lowercase := fun c => [if c = 'Ⱥ' then 'ⱥ' else c.toLower]
  lowercase_ne_nil := fun _ => cons_ne_nil _ _
  alphanumeric := Char.isAlphanum
  cased := Char.isAlpha
  caseIgnorable := fun _ => false

/-- The reader of the server's text panics at this line. -/
theorem wide_lowercase_panics :
    ¬ Pushed wideLowercase ["ȺȺȺȺpin".toList] "ȺȺȺȺpin".toList
      (pushPromptSuffixCandidates wideLowercase ["ȺȺȺȺpin".toList]
        "ȺȺȺȺpin".toList) := by
  have hpanic : pushPromptSuffixCandidates wideLowercase ["ȺȺȺȺpin".toList]
      "ȺȺȺȺpin".toList = .error .panicked := by
    decide +kernel
  rw [hpanic]
  rintro ⟨added, hok, -⟩
  cases hok

end NiceTerm.Telnet
