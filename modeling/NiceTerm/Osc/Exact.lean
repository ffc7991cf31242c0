/-
The stripper against the reference grammar, one chunk at a time.  They part
where a BEL follows an ST, where a command does not decode, and where an own
sequence stands inside a foreign one.
-/
import NiceTerm.Osc.Grammar

namespace NiceTerm.Osc

open List Option OscStripper Reference RustStr Search

variable {decode : Str → Option (List UInt8)}

/-- A command marker carries a command. -/
def CommandDecodes (decode : Str → Option (List UInt8)) (inner : Str) : Prop :=
  ∀ payload, commandPayload inner = some payload →
    (parseCommandPayload decode payload).isSome = true

/-- An own sequence starts inside the text. -/
def HoldsOwnIntroducer (text : Str) : Prop :=
  ∃ code ∈ ownCodes, oscIntroducer ++ code <:+: text

/-- Along a text, at each introducer the scan reaches: of an own sequence, no
BEL follows an ST and a command decodes; inside a foreign one, up to where the
scan ends it, no own sequence starts. -/
def Unambiguous (decode : Str → Option (List UInt8)) (text : Str) : Prop :=
  match _hfind : text.dropInfix? oscIntroducer with
  | none => True
  | some (_, payload) =>
    if startsWithOwnCode payload then
      match _hfirst : firstTerminator payload with
      | none => True
      | some (inner, terminator, after) =>
        (terminator = stringTerminator → bel ∉ after) ∧
          CommandDecodes decode inner ∧ Unambiguous decode after
    else
      match _hend : findOscEnd payload with
      | none => True
      | some (inner, _, after) =>
        ¬ HoldsOwnIntroducer inner ∧ Unambiguous decode after
termination_by text.length
decreasing_by
  · obtain ⟨rfl, -⟩ := firstTerminator_eq_some _hfirst
    obtain ⟨rfl, -⟩ :=
      (dropInfix?_eq_some oscIntroducer_ne_nil).mp _hfind
    simp [oscIntroducer]
    omega
  · obtain ⟨rfl, -⟩ := findOscEnd_eq_some _hend
    obtain ⟨rfl, -⟩ :=
      (dropInfix?_eq_some oscIntroducer_ne_nil).mp _hfind
    simp [oscIntroducer]
    omega

/-- The stripper for a session, as the session loops create it. -/
def sessionStripper (sessionId : Str) : OscStripper :=
  new (buildReadyMarker sessionId)

theorem sessionStripper_readyInner (sessionId : Str) :
    (sessionStripper sessionId).readyInner =
      readyMarkerPrefix ++ sessionId := by
  have hrest : (buildReadyMarker sessionId).dropPrefix? oscIntroducer =
      some (readyMarkerPrefix ++ sessionId ++ [bel]) := by
    rw [dropPrefix?_eq_some]
    simp [buildReadyMarker]
  have hinner : (readyMarkerPrefix ++ sessionId ++ [bel]).dropSuffix? [bel] =
      some (readyMarkerPrefix ++ sessionId) :=
    dropSuffix?_eq_some.mpr rfl
  simp only [sessionStripper, new, markerInner, hrest, hinner]

theorem sessionStripper_legacyReadyInner (sessionId : Str) :
    (sessionStripper sessionId).legacyReadyInner =
      some (legacyReadyMarkerPrefix ++ sessionId) := by
  have h : ((sessionStripper sessionId).readyInner.dropPrefix?
      readyMarkerPrefix).map (legacyReadyMarkerPrefix ++ ·) =
      some (legacyReadyMarkerPrefix ++ sessionId) := by
    rw [sessionStripper_readyInner, dropPrefix?_append]
    rfl
  exact h

section Recognise

variable {sessionId inner : Str}

theorem ownCode_unique {code other : Str} (hcode : code ∈ ownCodes)
    (hother : other ∈ ownCodes) (h : code <+: inner) (h' : other <+: inner) :
    code = other := by
  have hapart : ∀ code ∈ ownCodes, ∀ other ∈ ownCodes, code <+: other →
      code = other := by decide
  rcases prefix_or_prefix_of_prefix h h' with hle | hge
  · exact hapart code hcode other hother hle
  · exact (hapart other hother code hcode hge).symm

theorem not_isPrefix_of_not_own (h : startsWithOwnCode inner = false)
    {code : Str} (hcode : code ∈ ownCodes) : ¬ code <+: inner := by
  intro hfront
  rw [startsWithOwnCode_iff.mpr ⟨code, hcode, hfront⟩] at h
  cases h

theorem isCurrentReadyMarker_isPrefix
    (h : (sessionStripper sessionId).isCurrentReadyMarker inner = true) :
    readyMarkerPrefix <+: inner ∨ legacyReadyMarkerPrefix <+: inner := by
  simp only [isCurrentReadyMarker, sessionStripper_readyInner,
    sessionStripper_legacyReadyInner, Bool.or_eq_true, beq_iff_eq,
    some.injEq] at h
  rcases h with rfl | rfl
  · exact .inl (prefix_append _ _)
  · exact .inr (prefix_append _ _)

/-- Past the branches for directories and ready markers. -/
theorem recognise_eq_command (hcwd : ¬ cwdPrefix <+: inner)
    (hready : ¬ readyMarkerPrefix <+: inner)
    (hlegacy : ¬ legacyReadyMarkerPrefix <+: inner) :
    (sessionStripper sessionId).recognise decode inner =
      match (commandPayload inner).bind (parseCommandPayload decode) with
      | some command => .command command
      | none => .foreign := by
  have hcurrent : ¬ (sessionStripper sessionId).isCurrentReadyMarker inner =
      true := by
    intro h
    exact (isCurrentReadyMarker_isPrefix h).elim hready hlegacy
  have hother : ¬ (readyMarkerPrefix.isPrefixOf inner ||
      legacyReadyMarkerPrefix.isPrefixOf inner) = true := by
    simp [hready, hlegacy]
  simp only [recognise, dropPrefix?_eq_none.mpr hcwd, hcurrent, hother]
  rfl

theorem commandPayload_eq_none (hcommand : ¬ commandMarkerPrefix <+: inner)
    (hlegacy : ¬ legacyCommandMarkerPrefix <+: inner) :
    commandPayload inner = none := by
  simp [commandPayload, dropPrefix?_eq_none.mpr hcommand,
    dropPrefix?_eq_none.mpr hlegacy]

/-- What is not in the grammar is foreign to the stripper. -/
theorem recognise_of_not_own (h : startsWithOwnCode inner = false) :
    (sessionStripper sessionId).recognise decode inner = .foreign := by
  have hnot {code : Str} (hcode : code ∈ ownCodes) : ¬ code <+: inner :=
    not_isPrefix_of_not_own h hcode
  rw [recognise_eq_command (hnot (by decide)) (hnot (by decide))
    (hnot (by decide)), commandPayload_eq_none (hnot (by decide))
    (hnot (by decide))]
  rfl

theorem commandDecodes_of_none (h : commandPayload inner = none) :
    CommandDecodes decode inner := by
  intro payload hpayload
  rw [h] at hpayload
  cases hpayload

/-- What the stripper makes of the grammar's sequences. -/
theorem recognise_of_own (decode : Str → Option (List UInt8))
    (sessionId : Str) (h : startsWithOwnCode inner = true) :
    (∃ payload, inner = cwdPrefix ++ payload ∧ commandPayload inner = none ∧
      (sessionStripper sessionId).recognise decode inner =
        .cwd (parseOsc7Payload payload)) ∨
    (¬ cwdPrefix <+: inner ∧ commandPayload inner = none ∧
      ((sessionStripper sessionId).recognise decode inner = .ready ∨
        (sessionStripper sessionId).recognise decode inner = .otherReady)) ∨
    (¬ cwdPrefix <+: inner ∧ ∃ payload, commandPayload inner = some payload ∧
      (sessionStripper sessionId).recognise decode inner =
        match parseCommandPayload decode payload with
        | some command => .command command
        | none => .foreign) := by
  obtain ⟨code, hcode, hfront⟩ := startsWithOwnCode_iff.mp h
  have hnot {other : Str} (hother : other ∈ ownCodes) (hne : code ≠ other) :
      ¬ other <+: inner :=
    fun hfront' => hne (ownCode_unique hcode hother hfront hfront')
  by_cases hcwd : cwdPrefix <+: inner
  · obtain rfl := ownCode_unique hcode (by decide) hfront hcwd
    have hnone := commandPayload_eq_none (hnot (by decide) (by decide))
      (hnot (by decide) (by decide))
    obtain ⟨payload, rfl⟩ := hcwd
    refine .inl ⟨payload, rfl, hnone, ?_⟩
    simp [recognise, dropPrefix?_append]
  by_cases hready : readyMarkerPrefix <+: inner ∨
      legacyReadyMarkerPrefix <+: inner
  · have hnone : commandPayload inner = none := by
      rcases hready with hready | hready
      · obtain rfl := ownCode_unique hcode (by decide) hfront hready
        exact commandPayload_eq_none (hnot (by decide) (by decide))
          (hnot (by decide) (by decide))
      · obtain rfl := ownCode_unique hcode (by decide) hfront hready
        exact commandPayload_eq_none (hnot (by decide) (by decide))
          (hnot (by decide) (by decide))
    have hother : (readyMarkerPrefix.isPrefixOf inner ||
        legacyReadyMarkerPrefix.isPrefixOf inner) = true := by
      simpa using hready
    refine .inr (.inl ⟨hcwd, hnone, ?_⟩)
    simp only [recognise, dropPrefix?_eq_none.mpr hcwd, hother, ↓reduceIte]
    split <;> simp
  · rw [not_or] at hready
    refine .inr (.inr ⟨hcwd, ?_⟩)
    cases hpayload : commandPayload inner with
    | none =>
      exfalso
      rw [commandPayload, or_eq_none_iff,
        dropPrefix?_eq_none, dropPrefix?_eq_none] at hpayload
      simp only [ownCodes, mem_cons, not_mem_nil, or_false]
        at hcode
      rcases hcode with rfl | rfl | rfl | rfl | rfl
      · exact hcwd hfront
      · exact hready.1 hfront
      · exact hpayload.1 hfront
      · exact hready.2 hfront
      · exact hpayload.2 hfront
    | some payload =>
      refine ⟨payload, rfl, ?_⟩
      rw [recognise_eq_command hcwd hready.1 hready.2, hpayload]
      rfl

/-- Of the grammar's sequences, only a command that does not decode is foreign
to the stripper. -/
theorem recognise_foreign_iff (h : startsWithOwnCode inner = true) :
    (sessionStripper sessionId).recognise decode inner = .foreign ↔
      ¬ CommandDecodes decode inner := by
  rcases recognise_of_own decode sessionId h with
    ⟨payload, -, hnone, heq⟩ | ⟨-, hnone, heq⟩ | ⟨-, payload, hpayload, heq⟩
  · simp [heq, commandDecodes_of_none hnone]
  · rcases heq with heq | heq <;> simp [heq, commandDecodes_of_none hnone]
  · rw [heq]
    cases hparse : parseCommandPayload decode payload with
    | none => simp [CommandDecodes, hpayload, hparse]
    | some command => simp [CommandDecodes, hpayload, hparse]

/-- The working directory an own sequence reports. -/
def cwdPath (inner : Str) : Option Str :=
  (inner.dropPrefix? cwdPrefix).bind parseOsc7Payload

/-- The command an own sequence reports. -/
def acceptedCommand (decode : Str → Option (List UInt8)) (inner : Str) :
    Option Str :=
  (commandPayload inner).bind (parseCommandPayload decode)

/-- An own sequence whose command, if it is one, decodes is removed and its
payload reported. -/
theorem result_of_own (sessionId : Str) (h : startsWithOwnCode inner = true)
    (hdecodes : CommandDecodes decode inner) (sequence : Str)
    (afterReady : Bool) (remaining : Nat) :
    let result := ((sessionStripper sessionId).recognise decode inner).result
      sequence afterReady remaining
    result.visible = [] ∧ result.stripped = [⟨sequence, remaining⟩] ∧
      result.cwdPaths = (cwdPath inner).toList ∧
      result.acceptedCommands = (acceptedCommand decode inner).toList := by
  rcases recognise_of_own decode sessionId h with
    ⟨payload, rfl, hnone, heq⟩ | ⟨hcwd, hnone, heq⟩ |
    ⟨hcwd, payload, hpayload, heq⟩
  · simp [heq, Recognised.result, cwdPath, acceptedCommand, hnone,
      dropPrefix?_append]
  · rcases heq with heq | heq <;>
      simp [heq, Recognised.result, cwdPath, acceptedCommand, hnone,
        dropPrefix?_eq_none.mpr hcwd]
  · have hsome := hdecodes payload hpayload
    obtain ⟨command, hcommand⟩ := isSome_iff_exists.mp hsome
    simp [heq, Recognised.result, cwdPath, acceptedCommand, hpayload,
      hcommand, dropPrefix?_eq_none.mpr hcwd]

end Recognise

/-- No introducer starts inside a terminator. -/
theorem not_isPrefix_of_isSuffix_terminator {terminator rest after : Str}
    (hterminator : terminator = [bel] ∨ terminator = stringTerminator)
    (hsuffix : rest <:+ terminator) (hne : rest ≠ []) :
    ¬ oscIntroducer <+: rest ++ after := by
  have hrest : rest = [bel] ∨ rest = stringTerminator ∨ rest = ['\\'] := by
    rcases hterminator with rfl | rfl
    · rcases suffix_cons_iff.mp hsuffix with rfl | hnil
      · exact .inl rfl
      · exact absurd (suffix_nil.mp hnil) hne
    · rcases suffix_cons_iff.mp hsuffix with rfl | hlast
      · exact .inr (.inl rfl)
      · rcases suffix_cons_iff.mp hlast with rfl | hnil
        · exact .inr (.inr rfl)
        · exact absurd (suffix_nil.mp hnil) hne
  rcases hrest with rfl | rfl | rfl
  · simp [oscIntroducer, esc, bel]
  · simp [oscIntroducer, stringTerminator]
  · simp [oscIntroducer, esc]

/-- An own introducer that starts before a terminator lies before it. -/
theorem holdsOwnIntroducer_of_isPrefix {text terminator after code : Str}
    (hterminator : terminator = [bel] ∨ terminator = stringTerminator)
    (hcode : code ∈ ownCodes) (hne : text ≠ [])
    (h : oscIntroducer ++ code <+: text ++ terminator ++ after) :
    oscIntroducer ++ code <+: text := by
  obtain ⟨c, more, rfl, hc⟩ := terminator_eq_cons hterminator
  obtain ⟨d, rest, rfl⟩ := exists_cons_of_ne_nil hne
  have hnot : c ∉ ']' :: code := by
    obtain ⟨hbel, hesc⟩ := not_mem_ownCodes hcode
    rcases hc with rfl | rfl
    · simp [hbel, show bel ≠ ']' by decide]
    · simp [hesc, show esc ≠ ']' by decide]
  change esc :: (']' :: code) <+: d :: (rest ++ c :: more ++ after) at h
  obtain ⟨rfl, hrest⟩ := cons_prefix_cons.mp h
  rw [append_assoc] at hrest
  exact cons_prefix_cons.mpr ⟨rfl, isPrefix_of_not_mem hnot hrest⟩

/-- A foreign sequence without an own introducer inside is emitted. -/
theorem reference_foreign {inner terminator after : Str}
    (hterminator : terminator = [bel] ∨ terminator = stringTerminator)
    (hcode : startsWithOwnCode inner = false)
    (hinner : ¬ HoldsOwnIntroducer inner) :
    reference (oscIntroducer ++ (inner ++ terminator ++ after)) =
      (reference after).emit (oscIntroducer ++ inner ++ terminator) := by
  have hshape : oscIntroducer ++ (inner ++ terminator ++ after) =
      oscIntroducer ++ inner ++ terminator ++ after := by simp
  rw [hshape]
  refine reference_append fun start rest hsplit hne => ?_
  cases hown : ownAtFront (rest ++ after) with
  | none => rfl
  | some parts =>
    exfalso
    obtain ⟨payload, htext, hpayload, -⟩ := ownAtFront_eq_some hown
    obtain ⟨code, hmem, hfront⟩ := startsWithOwnCode_iff.mp hpayload
    have howns : oscIntroducer ++ code <+: rest ++ after :=
      htext ▸ (prefix_append_right_inj _).mpr hfront
    have hintroducer : oscIntroducer <+: rest ++ after :=
      (prefix_append _ _).trans howns
    match start, hsplit with
    | [], hsplit =>
      rw [nil_append] at hsplit
      rw [← hsplit, append_assoc, append_assoc,
        append_cancel_left_eq, ← append_assoc] at htext
      rw [← htext, startsWithOwnCode_inner hterminator, hcode] at hpayload
      cases hpayload
    | [_], hsplit =>
      simp only [oscIntroducer, cons_append, nil_append, cons.injEq] at hsplit
      rw [← hsplit.2] at hintroducer
      simp [oscIntroducer, esc] at hintroducer
    | _ :: _ :: start, hsplit =>
      simp only [oscIntroducer, cons_append, nil_append, cons.injEq] at hsplit
      rcases append_eq_append_iff.mp hsplit.2.2 with
        ⟨middle, rfl, hrest⟩ | ⟨middle, rfl, hrest⟩
      · exact not_isPrefix_of_isSuffix_terminator hterminator
          ⟨middle, hrest.symm⟩ hne hintroducer
      · subst hrest
        rcases eq_nil_or_concat middle with rfl | hmiddle
        · exact not_isPrefix_of_isSuffix_terminator hterminator
            suffix_rfl hne hintroducer
        · have hinside := holdsOwnIntroducer_of_isPrefix hterminator hmem
            (by rintro rfl; simp at hmiddle) howns
          exact hinner ⟨code, hmem,
            hinside.isInfix.trans (suffix_append _ _).isInfix⟩

/-- An own sequence is found where it stands or an earlier one has taken in its
introducer; what is found has at least as much behind it. -/
theorem reference_exists {rest inner terminator after : Str} (front : Str)
    (h : ownAtFront rest = some (inner, terminator, after)) :
    ∃ span ∈ (reference (front ++ rest)).sequences,
      after.length ≤ span.remaining := by
  induction front with
  | nil =>
    rw [nil_append, reference_of_own h]
    exact ⟨_, mem_cons_self, Nat.le_refl _⟩
  | cons c cs ih =>
    cases hown : ownAtFront (c :: (cs ++ rest)) with
    | none =>
      rw [cons_append, reference_of_plain hown]
      exact ih
    | some parts =>
      obtain ⟨inner', terminator', after'⟩ := parts
      rw [cons_append, reference_of_own hown]
      refine ⟨_, mem_cons_self, ?_⟩
      obtain ⟨payload, htext, -, hfirst⟩ := ownAtFront_eq_some hown
      obtain ⟨payload', rfl, -, hfirst'⟩ := ownAtFront_eq_some h
      obtain ⟨rfl, hterminator, -⟩ := firstTerminator_eq_some hfirst'
      obtain ⟨later, hlater⟩ : ∃ later,
          payload = later ++ terminator ++ after := by
        cases cs with
        | nil => simp [oscIntroducer, esc] at htext
        | cons d ds =>
          simp only [oscIntroducer, cons_append, nil_append,
            cons.injEq] at htext
          exact ⟨ds ++ oscIntroducer ++ inner,
            by simp [← htext.2.2, oscIntroducer]⟩
      obtain ⟨_, _, rest, hexists, hle⟩ :
          ∃ inner first rest, firstTerminator
              (later ++ terminator ++ after) = some (inner, first, rest) ∧
            after.length ≤ rest.length :=
        firstTerminator_exists later hterminator
      rw [← hlater, hfirst] at hexists
      obtain ⟨-, -, rfl⟩ : _ ∧ _ ∧ after' = rest := by
        simpa using hexists
      exact hle

section Loop

variable {sessionId : Str}

/-- What is removed from a text lies inside it. -/
theorem stripped_remaining_lt (afterReady : Bool) (text : Str) :
    ∀ span ∈ ((sessionStripper sessionId).pushLoop decode afterReady
      text).1.stripped, span.remaining < text.length := by
  induction hlength : text.length using Nat.strong_induction_on
    generalizing text afterReady with
  | h length ih =>
    cases hfind : text.dropInfix? oscIntroducer with
    | none =>
      rw [pushLoop_of_plain hfind]
      simp [shown]
    | some parts =>
      obtain ⟨before, payload⟩ := parts
      cases hend : findOscEnd payload with
      | none =>
        rw [pushLoop_of_open hfind hend]
        split <;> simp [shown, OscResult.append]
      | some closed =>
        obtain ⟨inner, terminator, after⟩ := closed
        obtain ⟨rfl, -⟩ :=
          (dropInfix?_eq_some oscIntroducer_ne_nil).mp hfind
        obtain ⟨rfl, -⟩ := findOscEnd_eq_some hend
        have hlt : after.length < length := by
          rw [← hlength]
          simp [oscIntroducer]
          omega
        rw [pushLoop_of_closed hfind hend]
        simp only [OscResult.append, shown, nil_append, mem_append]
        rintro span (hspan | hspan)
        · have hremaining : span.remaining = after.length := by
            revert hspan
            cases (sessionStripper sessionId).recognise decode inner <;>
              simp +contextual [Recognised.result, shown]
          omega
        · exact (ih after.length hlt _ after rfl span hspan).trans hlt

/-- The stripper has read a text as the reference does. -/
structure ReadsAs (decode : Str → Option (List UInt8)) (result : OscResult)
    (buf : Str) (expected : Reference) : Prop where
  stripped : result.stripped = expected.sequences
  visible : result.visible ++ buf = expected.visible
  cwdPaths : result.cwdPaths = expected.inners.filterMap cwdPath
  acceptedCommands : result.acceptedCommands =
    expected.inners.filterMap (acceptedCommand decode)

/-- The first of both terminators is the one the stripper takes, unless a BEL
follows an ST. -/
theorem findOscEnd_of_firstTerminator {payload inner terminator after : Str}
    (h : firstTerminator payload = some (inner, terminator, after))
    (hbel : terminator = stringTerminator → bel ∉ after) :
    findOscEnd payload = some (inner, terminator, after) := by
  obtain ⟨rfl, hterminator, hmem, hoccurs⟩ := firstTerminator_eq_some h
  rcases hterminator with rfl | rfl
  · have hfind : (inner ++ [bel] ++ after).dropInfix? [bel] =
        some (inner, after) := by
      refine (dropInfix?_eq_some (cons_ne_nil _ _)).mpr ⟨rfl, ?_⟩
      simpa [singleton_infix_iff] using hmem
    simp only [findOscEnd, hfind]
  · have hnone : (inner ++ stringTerminator ++ after).dropInfix? [bel] =
        none := by
      have hst : bel ∉ stringTerminator := by decide
      rw [dropInfix?_eq_none, singleton_infix_iff]
      simp [hmem, hst, hbel rfl]
    have hfind : (inner ++ stringTerminator ++ after).dropInfix?
        stringTerminator = some (inner, after) := by
      refine (dropInfix?_eq_some stringTerminator_ne_nil).mpr
        ⟨rfl, ?_⟩
      rwa [stringTerminator_infix_concat]
    simp only [findOscEnd, hnone, hfind, map_some]

/-- A BEL after an ST is taken for the end of the sequence. -/
theorem findOscEnd_past {payload inner terminator after : Str}
    (h : firstTerminator payload = some (inner, terminator, after))
    (hst : terminator = stringTerminator) (hbel : bel ∈ after) :
    ∃ inner' terminator' after',
      findOscEnd payload = some (inner', terminator', after') ∧
        after'.length < after.length := by
  obtain ⟨rfl, -, hmem, -⟩ := firstTerminator_eq_some h
  cases hfind : (inner ++ terminator ++ after).dropInfix? [bel] with
  | none =>
    rw [dropInfix?_eq_none, singleton_infix_iff] at hfind
    exact absurd (mem_append_right _ hbel) hfind
  | some parts =>
    refine ⟨parts.1, [bel], parts.2, by simp only [findOscEnd, hfind], ?_⟩
    obtain ⟨hsplit, -⟩ :=
      (dropInfix?_eq_some (cons_ne_nil _ _)).mp hfind
    have hbefore : bel ∉ inner ++ terminator := by
      rw [hst, mem_append, not_or]
      exact ⟨hmem, by decide⟩
    have hlength := congrArg List.length hsplit
    have hget := congrArg (·[parts.1.length]?) hsplit
    rw [append_assoc parts.1] at hget
    simp only [getElem?_append_right (Nat.le_refl parts.1.length),
      Nat.sub_self, singleton_append, getElem?_cons_zero] at hget
    rcases Nat.lt_or_ge parts.1.length (inner ++ terminator).length with
      hlt | hge
    · rw [getElem?_append_left hlt] at hget
      exact absurd (mem_of_getElem? hget) hbefore
    · simp only [length_append, length_singleton] at hlength hge
      omega

section Unfold

variable {before payload inner terminator after text : Str}

theorem unambiguous_plain (h : text.dropInfix? oscIntroducer = none) :
    Unambiguous decode text := by
  rw [Unambiguous]
  split
  · trivial
  · next hfind => simp [h] at hfind

section

variable (h : text.dropInfix? oscIntroducer = some (before, payload))
include h

theorem unambiguous_open
    (hend : findOscEnd payload = none) : Unambiguous decode text := by
  rw [Unambiguous]
  split
  · trivial
  · next before' payload' hfind =>
    obtain ⟨rfl, rfl⟩ : before = before' ∧ payload = payload' := by
      simpa [h] using hfind
    split
    · split
      · trivial
      · next hfirst => simp [findOscEnd_eq_none.mp hend] at hfirst
    · split
      · trivial
      · next hclosed => simp [hend] at hclosed

theorem unambiguous_own (hcode : startsWithOwnCode payload = true)
    (hfirst : firstTerminator payload = some (inner, terminator, after)) :
    Unambiguous decode text ↔ (terminator = stringTerminator → bel ∉ after) ∧
        CommandDecodes decode inner ∧ Unambiguous decode after := by
  rw [Unambiguous]
  split
  · next hfind => simp [h] at hfind
  · next before' payload' hfind =>
    obtain ⟨rfl, rfl⟩ : before = before' ∧ payload = payload' := by
      simpa [h] using hfind
    rw [if_pos hcode]
    split
    · next hnone => simp [hfirst] at hnone
    · next inner' terminator' after' hsome =>
      obtain ⟨rfl, rfl, rfl⟩ :
          inner = inner' ∧ terminator = terminator' ∧ after = after' := by
        simpa [hfirst] using hsome
      rfl

theorem unambiguous_foreign (hcode : startsWithOwnCode payload = false)
    (hend : findOscEnd payload = some (inner, terminator, after)) :
    Unambiguous decode text ↔
      ¬ HoldsOwnIntroducer inner ∧ Unambiguous decode after := by
  rw [Unambiguous]
  split
  · next hfind => simp [h] at hfind
  · next before' payload' hfind =>
    obtain ⟨rfl, rfl⟩ : before = before' ∧ payload = payload' := by
      simpa [h] using hfind
    rw [if_neg (by simp [hcode])]
    split
    · next hnone => simp [hend] at hnone
    · next inner' terminator' after' hsome =>
      obtain ⟨rfl, rfl, rfl⟩ :
          inner = inner' ∧ terminator = terminator' ∧ after = after' := by
        simpa [hend] using hsome
      rfl

end

end Unfold

theorem reference_plain {text : Str}
    (h : text.dropInfix? oscIntroducer = none) :
    reference text = { visible := text } := by
  rw [dropInfix?_eq_none] at h
  have hplain : reference (text ++ []) = (reference []).emit text := by
    refine reference_append fun start rest hsplit _ => ?_
    rw [append_nil]
    cases hown : ownAtFront rest with
    | none => rfl
    | some parts =>
      obtain ⟨payload, rfl, -, -⟩ := ownAtFront_eq_some hown
      exact absurd ⟨start, payload, by simp [hsplit]⟩ h
  simpa [reference_nil, emit] using hplain

theorem reference_open {before payload text : Str}
    (h : text.dropInfix? oscIntroducer = some (before, payload))
    (hend : findOscEnd payload = none) :
    reference text = { visible := text } := by
  obtain ⟨rfl, hfirst⟩ :=
    (dropInfix?_eq_some oscIntroducer_ne_nil).mp h
  have hnone : firstTerminator (oscIntroducer ++ payload) = none := by
    obtain ⟨hbel, hst⟩ :=
      firstTerminator_eq_none.mp (findOscEnd_eq_none.mp hend)
    refine firstTerminator_eq_none.mpr ⟨?_, ?_⟩
    · simp [oscIntroducer, hbel, esc, show bel ≠ ']' by decide,
        show bel ≠ '\x1b' by decide]
    · simp only [oscIntroducer, cons_append, nil_append,
        infix_cons_iff, not_or]
      exact ⟨by simp [stringTerminator], by simp [stringTerminator, esc], hst⟩
  rw [reference_before hfirst, reference_of_unterminated hnone]
  simp [emit]

theorem pushLoop_open_visible {before payload text : Str} {afterReady : Bool}
    (h : text.dropInfix? oscIntroducer = some (before, payload))
    (hend : findOscEnd payload = none) :
    ReadsAs decode
      ((sessionStripper sessionId).pushLoop decode afterReady text).1
      ((sessionStripper sessionId).pushLoop decode afterReady text).2
      { visible := text } := by
  obtain ⟨rfl, -⟩ :=
    (dropInfix?_eq_some oscIntroducer_ne_nil).mp h
  rw [pushLoop_of_open h hend]
  split
  · exact ⟨rfl, by simp [OscResult.append, shown], rfl, rfl⟩
  · exact ⟨rfl, by simp [shown], rfl, rfl⟩

section Closed

variable {before payload inner terminator after text : Str} {afterReady : Bool}

theorem stripped_of_closed
    (h : text.dropInfix? oscIntroducer = some (before, payload))
    (hend : findOscEnd payload = some (inner, terminator, after)) :
    ∃ afterReady', ((sessionStripper sessionId).pushLoop decode afterReady
        text).1.stripped =
      (((sessionStripper sessionId).recognise decode inner).result
        (oscIntroducer ++ inner ++ terminator) afterReady
          after.length).stripped ++
      ((sessionStripper sessionId).pushLoop decode afterReady'
        after).1.stripped := by
  refine ⟨afterReady ||
    (sessionStripper sessionId).recognise decode inner == .ready, ?_⟩
  rw [pushLoop_of_closed h hend]
  rfl

theorem reference_own
    (h : text.dropInfix? oscIntroducer = some (before, payload))
    (hcode : startsWithOwnCode payload = true)
    (hfirst : firstTerminator payload = some (inner, terminator, after)) :
    reference text =
      ((reference after).remove inner terminator after).emit before := by
  obtain ⟨rfl, hbefore⟩ :=
    (dropInfix?_eq_some oscIntroducer_ne_nil).mp h
  have hown : ownAtFront (oscIntroducer ++ payload) =
      some (inner, terminator, after) := by
    rw [ownAtFront_oscIntroducer, if_pos hcode, hfirst]
  rw [reference_before hbefore, reference_of_own hown]

theorem startsWithOwnCode_of_first (hcode : startsWithOwnCode payload = true)
    (hfirst : firstTerminator payload = some (inner, terminator, after)) :
    startsWithOwnCode inner = true := by
  obtain ⟨rfl, hterminator, -⟩ := firstTerminator_eq_some hfirst
  rwa [startsWithOwnCode_inner hterminator] at hcode

theorem terminator_of_findOscEnd
    (hend : findOscEnd payload = some (inner, terminator, after)) :
    terminator = [bel] ∨ terminator = stringTerminator :=
  (findOscEnd_eq_some hend).2.2.imp_right fun h => h.1

theorem startsWithOwnCode_of_end (hcode : startsWithOwnCode payload = false)
    (hend : findOscEnd payload = some (inner, terminator, after)) :
    startsWithOwnCode inner = false := by
  obtain ⟨rfl, -⟩ := findOscEnd_eq_some hend
  rwa [startsWithOwnCode_inner (terminator_of_findOscEnd hend)] at hcode

section

variable (h : text.dropInfix? oscIntroducer = some (before, payload))
include h

theorem readsAs_own
    (hcode : startsWithOwnCode payload = true)
    (hfirst : firstTerminator payload = some (inner, terminator, after))
    (hbel : terminator = stringTerminator → bel ∉ after)
    (hdecodes : CommandDecodes decode inner)
    (hafter : ∀ afterReady, ReadsAs decode
      ((sessionStripper sessionId).pushLoop decode afterReady after).1
      ((sessionStripper sessionId).pushLoop decode afterReady after).2
      (reference after)) :
    ReadsAs decode
      ((sessionStripper sessionId).pushLoop decode afterReady text).1
      ((sessionStripper sessionId).pushLoop decode afterReady text).2
      (reference text) := by
  have hend := findOscEnd_of_firstTerminator hfirst hbel
  obtain ⟨hvisible, hstripped, hpaths, hcommands⟩ :=
    result_of_own sessionId (startsWithOwnCode_of_first hcode hfirst) hdecodes
      (oscIntroducer ++ inner ++ terminator) afterReady after.length
  have hnext := hafter (afterReady ||
    (sessionStripper sessionId).recognise decode inner == .ready)
  rw [pushLoop_of_closed h hend, reference_own h hcode hfirst]
  dsimp only
  generalize ((sessionStripper sessionId).recognise decode inner).result
    (oscIntroducer ++ inner ++ terminator) afterReady after.length = result
    at hvisible hstripped hpaths hcommands ⊢
  refine ⟨?_, ?_, ?_, ?_⟩
  · simp [OscResult.append, shown, hstripped, hnext.stripped, emit, remove]
  · simp [OscResult.append, shown, hvisible, hnext.visible, emit, remove]
  · cases hpath : cwdPath inner <;>
      simp [OscResult.append, shown, hpaths, hnext.cwdPaths, emit,
        remove, hpath]
  · cases hcommand : acceptedCommand decode inner <;>
      simp [OscResult.append, shown, hcommands, hnext.acceptedCommands,
        emit, remove, hcommand]

theorem readsAs_foreign
    (hcode : startsWithOwnCode payload = false)
    (hend : findOscEnd payload = some (inner, terminator, after))
    (hinner : ¬ HoldsOwnIntroducer inner)
    (hafter : ∀ afterReady, ReadsAs decode
      ((sessionStripper sessionId).pushLoop decode afterReady after).1
      ((sessionStripper sessionId).pushLoop decode afterReady after).2
      (reference after)) :
    ReadsAs decode
      ((sessionStripper sessionId).pushLoop decode afterReady text).1
      ((sessionStripper sessionId).pushLoop decode afterReady text).2
      (reference text) := by
  have hcode' := startsWithOwnCode_of_end hcode hend
  have hreference : reference (oscIntroducer ++
      (inner ++ terminator ++ after)) = _ :=
    reference_foreign (terminator_of_findOscEnd hend) hcode' hinner
  have hnext := hafter (afterReady || Recognised.foreign == .ready)
  obtain ⟨rfl, hbefore⟩ :=
    (dropInfix?_eq_some oscIntroducer_ne_nil).mp h
  obtain ⟨rfl, -⟩ := findOscEnd_eq_some hend
  rw [pushLoop_of_closed h hend, recognise_of_not_own hcode',
    reference_before hbefore, hreference, emit_emit]
  refine ⟨?_, ?_, ?_, ?_⟩
  · simp [OscResult.append, shown, Recognised.result, hnext.stripped, emit]
  · simp [OscResult.append, shown, Recognised.result, hnext.visible, emit]
  · simp [OscResult.append, shown, Recognised.result, hnext.cwdPaths, emit]
  · simp [OscResult.append, shown, Recognised.result, hnext.acceptedCommands,
      emit]

theorem length_after_lt
    (hend : findOscEnd payload = some (inner, terminator, after)) :
    after.length < text.length := by
  obtain ⟨rfl, -⟩ := findOscEnd_eq_some hend
  have hlt := Search.length_after_lt oscIntroducer_ne_nil h
  simp only [length_append] at hlt
  omega

end

end Closed

/-- On an unambiguous text the stripper follows the grammar. -/
theorem pushLoop_readsAs (afterReady : Bool) (text : Str)
    (h : Unambiguous decode text) :
    ReadsAs decode
      ((sessionStripper sessionId).pushLoop decode afterReady text).1
      ((sessionStripper sessionId).pushLoop decode afterReady text).2
      (reference text) := by
  induction hlength : text.length using Nat.strong_induction_on
    generalizing text afterReady with
  | h length ih =>
    cases hfind : text.dropInfix? oscIntroducer with
    | none =>
      rw [pushLoop_of_plain hfind, reference_plain hfind]
      exact ⟨rfl, append_nil _, rfl, rfl⟩
    | some parts =>
      obtain ⟨before, payload⟩ := parts
      cases hend : findOscEnd payload with
      | none =>
        rw [reference_open hfind hend]
        exact pushLoop_open_visible hfind hend
      | some closed =>
        obtain ⟨inner, terminator, after⟩ := closed
        cases hcode : startsWithOwnCode payload with
        | false =>
          obtain ⟨hinner, hafter⟩ :=
            (unambiguous_foreign hfind hcode hend).mp h
          refine readsAs_foreign hfind hcode hend hinner fun flag => ?_
          exact ih _ (hlength ▸ length_after_lt hfind hend) flag after
            hafter rfl
        | true =>
          obtain ⟨⟨inner', terminator', after'⟩, hfirst⟩ :
              ∃ parts, firstTerminator payload = some parts := by
            rw [← ne_none_iff_exists', Ne, ← findOscEnd_eq_none, hend]
            simp
          obtain ⟨hbel, hdecodes, hafter⟩ :=
            (unambiguous_own hfind hcode hfirst).mp h
          have hend' := findOscEnd_of_firstTerminator hfirst hbel
          refine readsAs_own hfind hcode hfirst hbel hdecodes
            fun flag => ?_
          exact ih _ (hlength ▸ length_after_lt hfind hend') flag
            after' hafter rfl

/-- A foreign sequence that the scan skips, with an own introducer inside: the
grammar finds something there. -/
theorem reference_nested {before payload inner terminator after text : Str}
    (h : text.dropInfix? oscIntroducer = some (before, payload))
    (hend : findOscEnd payload = some (inner, terminator, after))
    (hinner : HoldsOwnIntroducer inner) :
    ∃ span ∈ (reference text).sequences, after.length ≤ span.remaining := by
  obtain ⟨rfl, -⟩ := (dropInfix?_eq_some oscIntroducer_ne_nil).mp h
  have hterminator := terminator_of_findOscEnd hend
  obtain ⟨rfl, -⟩ := findOscEnd_eq_some hend
  obtain ⟨code, hcode, front, back, rfl⟩ := hinner
  obtain ⟨inner', first, rest, hfirst, hle⟩ :
      ∃ inner first rest, firstTerminator
          (code ++ back ++ terminator ++ after) = some (inner, first, rest) ∧
        after.length ≤ rest.length :=
    firstTerminator_exists (code ++ back) hterminator
  have hown : ownAtFront
      (oscIntroducer ++ (code ++ back ++ terminator ++ after)) =
        some (inner', first, rest) := by
    rw [ownAtFront_oscIntroducer, if_pos, hfirst]
    exact startsWithOwnCode_iff.mpr ⟨code, hcode,
      back ++ terminator ++ after, by simp⟩
  obtain ⟨span, hspan, hlong⟩ :=
    reference_exists (before ++ oscIntroducer ++ front) hown
  refine ⟨span, ?_, hle.trans hlong⟩
  simpa using hspan

theorem result_stripped_le {recognised : Recognised} {sequence : Str}
    {afterReady : Bool} {remaining : Nat} :
    ∀ span ∈ (recognised.result sequence afterReady remaining).stripped,
      span.remaining = remaining := by
  intro span hspan
  cases recognised <;> simp_all [Recognised.result, shown]

section Step

variable {before payload inner terminator after text : Str}
  {afterReady flag : Bool}

theorem foreign_step
    (h : text.dropInfix? oscIntroducer = some (before, payload))
    (hcode : startsWithOwnCode payload = false)
    (hend : findOscEnd payload = some (inner, terminator, after))
    (hsame : (reference text).sequences =
      (((sessionStripper sessionId).recognise decode inner).result
        (oscIntroducer ++ inner ++ terminator) afterReady
          after.length).stripped ++
      ((sessionStripper sessionId).pushLoop decode flag after).1.stripped) :
    ¬ HoldsOwnIntroducer inner ∧
      ((sessionStripper sessionId).pushLoop decode flag after).1.stripped =
        (reference after).sequences := by
  have hcode' := startsWithOwnCode_of_end hcode hend
  rw [recognise_of_not_own hcode'] at hsame
  change (reference text).sequences = [] ++ _ at hsame
  rw [nil_append] at hsame
  have hinner : ¬ HoldsOwnIntroducer inner := by
    intro hnested
    obtain ⟨span, hspan, hlong⟩ := reference_nested h hend hnested
    rw [hsame] at hspan
    exact absurd (stripped_remaining_lt flag after span hspan)
      (Nat.not_lt_of_le hlong)
  refine ⟨hinner, ?_⟩
  have hreference : reference (oscIntroducer ++
      (inner ++ terminator ++ after)) = _ :=
    reference_foreign (terminator_of_findOscEnd hend) hcode' hinner
  obtain ⟨rfl, hbefore⟩ :=
    (dropInfix?_eq_some oscIntroducer_ne_nil).mp h
  obtain ⟨rfl, -⟩ := findOscEnd_eq_some hend
  rw [← hsame, reference_before hbefore, hreference]
  rfl

theorem own_step {inner' terminator' after' : Str}
    (h : text.dropInfix? oscIntroducer = some (before, payload))
    (hcode : startsWithOwnCode payload = true)
    (hend : findOscEnd payload = some (inner, terminator, after))
    (hfirst : firstTerminator payload = some (inner', terminator', after'))
    (hsame : (reference text).sequences =
      (((sessionStripper sessionId).recognise decode inner).result
        (oscIntroducer ++ inner ++ terminator) afterReady
          after.length).stripped ++
      ((sessionStripper sessionId).pushLoop decode flag after).1.stripped) :
    (terminator' = stringTerminator → bel ∉ after') ∧
      CommandDecodes decode inner' ∧ after = after' ∧
      ((sessionStripper sessionId).pushLoop decode flag after).1.stripped =
        (reference after).sequences := by
  have hlater : ∀ span ∈ ((sessionStripper sessionId).pushLoop decode flag
      after).1.stripped, span.remaining < after.length :=
    stripped_remaining_lt flag after
  rw [reference_own h hcode hfirst] at hsame
  change _ :: (reference after').sequences = _ at hsame
  have hbel : terminator' = stringTerminator → bel ∉ after' := by
    intro hst hmem
    obtain ⟨_, _, rest, hpast, hlt⟩ := findOscEnd_past hfirst hst hmem
    obtain ⟨-, -, rfl⟩ : _ ∧ _ ∧ after = rest := by
      simpa [hend] using hpast
    -- the grammar's sequence ends before any that the stripper removes
    have hmem := hsame ▸ mem_cons_self
    rcases mem_append.mp hmem with hspan | hspan
    · have hremaining := result_stripped_le _ hspan
      simp only at hremaining
      omega
    · have hremaining := hlater _ hspan
      simp only at hremaining
      omega
  have hend' := findOscEnd_of_firstTerminator hfirst hbel
  obtain ⟨rfl, rfl, rfl⟩ :
      inner = inner' ∧ terminator = terminator' ∧ after = after' := by
    simpa [hend] using hend'
  have hcode' := startsWithOwnCode_of_first hcode hfirst
  have hdecodes : CommandDecodes decode inner := by
    by_contra hforeign
    rw [(recognise_foreign_iff hcode').mpr hforeign] at hsame
    change _ = [] ++ _ at hsame
    rw [nil_append] at hsame
    have hremaining := hlater _ (hsame ▸ mem_cons_self)
    simp at hremaining
  refine ⟨hbel, hdecodes, rfl, ?_⟩
  rw [(result_of_own sessionId hcode' hdecodes _ _ _).2.1] at hsame
  exact (cons.inj hsame).2.symm

end Step

/-- Where the stripper follows the grammar, the text is unambiguous. -/
theorem unambiguous_of_stripped (afterReady : Bool) (text : Str)
    (h : ((sessionStripper sessionId).pushLoop decode afterReady
      text).1.stripped = (reference text).sequences) :
    Unambiguous decode text := by
  induction hlength : text.length using Nat.strong_induction_on
    generalizing text afterReady with
  | h length ih =>
    cases hfind : text.dropInfix? oscIntroducer with
    | none => exact unambiguous_plain hfind
    | some parts =>
      obtain ⟨before, payload⟩ := parts
      cases hend : findOscEnd payload with
      | none => exact unambiguous_open hfind hend
      | some closed =>
        obtain ⟨inner, terminator, after⟩ := closed
        have hlt := length_after_lt hfind hend
        obtain ⟨flag, hstripped⟩ : ∃ flag, _ = _ ++
            ((sessionStripper sessionId).pushLoop decode flag
              after).1.stripped :=
          stripped_of_closed hfind hend
        rw [h] at hstripped
        cases hcode : startsWithOwnCode payload with
        | false =>
          obtain ⟨hinner, hafter⟩ :=
            foreign_step hfind hcode hend hstripped
          exact (unambiguous_foreign hfind hcode hend).mpr
            ⟨hinner, ih _ (hlength ▸ hlt) flag after hafter rfl⟩
        | true =>
          obtain ⟨⟨inner', terminator', after'⟩, hfirst⟩ :
              ∃ parts, firstTerminator payload = some parts := by
            rw [← ne_none_iff_exists', Ne, ← findOscEnd_eq_none, hend]
            simp
          obtain ⟨hbel, hdecodes, rfl, hafter⟩ :=
            own_step hfind hcode hend hfirst hstripped
          exact (unambiguous_own hfind hcode hfirst).mpr
            ⟨hbel, hdecodes, ih _ (hlength ▸ hlt) flag after hafter rfl⟩

end Loop

theorem push_eq_pushLoop (stripper : OscStripper) (chunk : Str) :
    (stripper.push decode chunk).1 =
        (stripper.pushLoop decode false (stripper.buf ++ chunk)).1 ∧
      (stripper.push decode chunk).2.buf =
        (stripper.pushLoop decode false (stripper.buf ++ chunk)).2 := by
  unfold push
  dsimp only
  split
  · next hvalve =>
    have hplain : (stripper.buf ++ chunk).dropInfix? oscIntroducer = none := by
      rw [dropInfix?_eq_none]
      intro hoccurs
      exact hvalve.2 (hoccurs.subset mem_cons_self)
    rw [pushLoop_of_plain hplain]
    exact ⟨rfl, rfl⟩
  · exact ⟨rfl, rfl⟩

/-- One chunk and a flush: the visible text is the input less exactly the
grammar's sequences, and what is reported are their payloads. -/
def FollowsGrammar (decode : Str → Option (List UInt8)) (sessionId : Str)
    (input : Str) : Prop :=
  let pushed := (sessionStripper sessionId).push decode input
  ReadsAs decode pushed.1 pushed.2.flush.1 (reference input)

/-- The stripper removes exactly the grammar's sequences exactly when the input
is unambiguous. -/
theorem followsGrammar_iff (decode : Str → Option (List UInt8))
    (sessionId input : Str) :
    FollowsGrammar decode sessionId input ↔ Unambiguous decode input := by
  obtain ⟨hresult, hbuf⟩ :
      _ ∧ ((sessionStripper sessionId).push decode input).2.buf = _ :=
    push_eq_pushLoop (sessionStripper sessionId) input
  change ReadsAs _ _ ((sessionStripper sessionId).push decode input).2.buf _ ↔ _
  rw [hresult, hbuf]
  change ReadsAs decode
    ((sessionStripper sessionId).pushLoop decode false input).1 _ _ ↔ _
  constructor
  · intro h
    exact unambiguous_of_stripped false input h.stripped
  · exact pushLoop_readsAs false input

/-- A report ended by ST, visible text, and a bell. -/
def reportThenBell : Str :=
  oscIntroducer ++ "7;file://h/a".toList ++ stringTerminator ++ "hi".toList ++
    [bel]

/-- The stripper takes the bell for the end of the report and swallows the
text; the grammar ends the report at the ST. -/
theorem text_swallowed :
    ((sessionStripper "session-1".toList).push (fun _ => none)
        reportThenBell).1.visible = [] ∧
      (reference reportThenBell).visible = "hi".toList ++ [bel] ∧
      ¬ FollowsGrammar (fun _ => none) "session-1".toList reportThenBell := by
  refine ⟨by decide +kernel, by decide +kernel, fun h => ?_⟩
  have hstripped := h.stripped
  revert hstripped
  decide +kernel

end NiceTerm.Osc
