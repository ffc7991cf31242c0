/-
A reference grammar for the program's own sequences: an introducer with one of
the own codes, up to the first of BEL and ST.
-/
import NiceTerm.Osc.Stripper

namespace NiceTerm.Osc

open List RustStr Search

/-- The codes of the program's own sequences. -/
def ownCodes : List Str :=
  [cwdPrefix, readyMarkerPrefix, commandMarkerPrefix, legacyReadyMarkerPrefix,
    legacyCommandMarkerPrefix]

def startsWithOwnCode (payload : Str) : Bool :=
  ownCodes.any fun code => code.isPrefixOf payload

/-- Split at the first of BEL and ST. -/
def firstTerminator : Str → Option (Str × Str × Str)
  | [] => none
  | c :: cs =>
    if c = bel then some ([], [bel], cs)
    else
      match (c :: cs).dropPrefix? stringTerminator with
      | some after => some ([], stringTerminator, after)
      | none => (firstTerminator cs).map fun parts => (c :: parts.1, parts.2)

/-- The complete own sequence at the front of a text. -/
def ownAtFront (text : Str) : Option (Str × Str × Str) :=
  match text.dropPrefix? oscIntroducer with
  | none => none
  | some payload =>
    if startsWithOwnCode payload then firstTerminator payload else none

/-- What is left when the own sequences are removed, the sequences, and what
stands between their introducers and terminators. -/
structure Reference where
  visible : Str := []
  sequences : List OscSpan := []
  inners : List Str := []
deriving Repr, DecidableEq

def Reference.emit (text : Str) (next : Reference) : Reference :=
  { next with visible := text ++ next.visible }

def Reference.remove (inner terminator after : Str) (next : Reference) :
    Reference :=
  { next with
    sequences := ⟨oscIntroducer ++ inner ++ terminator, after.length⟩ ::
      next.sequences
    inners := inner :: next.inners }

variable {text inner terminator after : Str}

theorem firstTerminator_eq_some
    (h : firstTerminator text = some (inner, terminator, after)) :
    text = inner ++ terminator ++ after ∧
      (terminator = [bel] ∨ terminator = stringTerminator) ∧
      bel ∉ inner ∧ ¬ stringTerminator <:+: inner := by
  induction text generalizing inner with
  | nil => cases h
  | cons c cs ih =>
    rw [firstTerminator] at h
    split at h
    · next hbel =>
      simp only [Option.some.injEq, Prod.mk.injEq] at h
      obtain ⟨rfl, rfl, rfl⟩ := h
      simp [hbel, stringTerminator]
    · next hbel =>
      split at h
      · next hst =>
        simp only [Option.some.injEq, Prod.mk.injEq] at h
        obtain ⟨rfl, rfl, rfl⟩ := h
        refine ⟨dropPrefix?_eq_some.mp hst, .inr rfl, by simp, ?_⟩
        simp [stringTerminator]
      · next hst =>
        simp only [Option.map_eq_some_iff, Prod.mk.injEq] at h
        obtain ⟨⟨inner', parts⟩, hrest, rfl, rfl⟩ := h
        obtain ⟨rfl, hterminator, hmem, hoccurs⟩ := ih hrest
        refine ⟨rfl, hterminator, by simp [hmem, Ne.symm hbel], ?_⟩
        rw [infix_cons_iff, not_or]
        refine ⟨?_, hoccurs⟩
        rintro ⟨rest, hfront⟩
        have hdrop : (c :: (inner' ++ terminator ++ after)).dropPrefix?
            stringTerminator = some (rest ++ terminator ++ after) := by
          rw [dropPrefix?_eq_some, append_assoc, ← cons_append, ← hfront]
          simp
        rw [hdrop] at hst
        cases hst

theorem firstTerminator_eq_none :
    firstTerminator text = none ↔
      bel ∉ text ∧ ¬ stringTerminator <:+: text := by
  induction text with
  | nil => simp [firstTerminator, stringTerminator]
  | cons c cs ih =>
    rw [firstTerminator, infix_cons_iff, not_or]
    by_cases hbel : c = bel
    · simp [hbel]
    · cases hst : (c :: cs).dropPrefix? stringTerminator with
      | some after =>
        have hsplit := dropPrefix?_eq_some.mp hst
        simp [hbel, hsplit]
      | none =>
        have hfront : ¬ stringTerminator <+: c :: cs := by
          rintro ⟨rest, hrest⟩
          rw [← hrest, dropPrefix?_append] at hst
          cases hst
        simp [hbel, hfront, ih, Ne.symm hbel]

theorem firstTerminator_intro
    (hterminator : terminator = [bel] ∨ terminator = stringTerminator)
    (hbel : bel ∉ inner) (hst : ¬ stringTerminator <:+: inner) :
    firstTerminator (inner ++ terminator ++ after) =
      some (inner, terminator, after) := by
  induction inner with
  | nil =>
    rcases hterminator with rfl | rfl
    · simp [firstTerminator]
    · change firstTerminator (esc :: '\\' :: after) = _
      rw [firstTerminator, if_neg (by decide)]
      change (match (stringTerminator ++ after).dropPrefix?
        stringTerminator with | some after => _ | none => _) = _
      rw [dropPrefix?_append]
  | cons c cs ih =>
    rw [mem_cons, not_or] at hbel
    rw [infix_cons_iff, not_or] at hst
    have hfront : (c :: (cs ++ terminator ++ after)).dropPrefix?
        stringTerminator = none := by
      rw [dropPrefix?_eq_none]
      rintro ⟨rest, hrest⟩
      simp only [stringTerminator, cons_append, nil_append,
        cons.injEq] at hrest
      obtain ⟨rfl, hsecond⟩ := hrest
      cases cs with
      | nil =>
        rcases hterminator with rfl | rfl <;>
          simp [bel, stringTerminator, esc] at hsecond
      | cons d ds =>
        simp only [cons_append, cons.injEq] at hsecond
        exact hst.1 ⟨ds, by rw [← hsecond.1]; rfl⟩
    rw [cons_append, cons_append, firstTerminator, if_neg (Ne.symm hbel.1),
      hfront, ih hbel.2 hst.2]
    rfl

/-- A terminator further on means that the first one comes no later. -/
theorem firstTerminator_exists (front : Str)
    (h : terminator = [bel] ∨ terminator = stringTerminator) :
    ∃ inner first rest,
      firstTerminator (front ++ terminator ++ after) =
          some (inner, first, rest) ∧
        after.length ≤ rest.length := by
  induction front with
  | nil =>
    exact ⟨[], terminator, after, firstTerminator_intro h not_mem_nil
      (by simp [stringTerminator]), Nat.le_refl _⟩
  | cons c cs ih =>
    obtain ⟨inner, first, rest, hrest, hle⟩ := ih
    rw [cons_append, cons_append, firstTerminator]
    split
    · exact ⟨[], [bel], _, rfl, by simp; omega⟩
    · split
      · next after' hst =>
        refine ⟨[], stringTerminator, after', rfl, ?_⟩
        have hlength := congrArg List.length (dropPrefix?_eq_some.mp hst)
        have hpos : 0 < terminator.length := by
          rcases h with rfl | rfl <;> decide
        simp [stringTerminator] at hlength
        omega
      · exact ⟨c :: inner, first, rest, by rw [hrest]; rfl, hle⟩

theorem findOscEnd_eq_none {payload : Str} :
    findOscEnd payload = none ↔ firstTerminator payload = none := by
  rw [firstTerminator_eq_none, findOscEnd]
  cases hbel : payload.dropInfix? [bel] with
  | some parts =>
    have hmem : bel ∈ payload := by
      by_contra habsent
      rw [← singleton_infix_iff, ← dropInfix?_eq_none, hbel]
        at habsent
      cases habsent
    simp [hmem]
  | none =>
    rw [dropInfix?_eq_none, singleton_infix_iff] at hbel
    simp [hbel, dropInfix?_eq_none]

theorem startsWithOwnCode_iff {payload : Str} :
    startsWithOwnCode payload = true ↔
      ∃ code ∈ ownCodes, code <+: payload := by
  simp [startsWithOwnCode]

theorem not_mem_ownCodes {code : Str} (h : code ∈ ownCodes) :
    bel ∉ code ∧ esc ∉ code := by
  have hall : ∀ code ∈ ownCodes, bel ∉ code ∧ esc ∉ code := by decide
  exact hall code h

/-- A block without the character `c` that fits in front of `c` ends before
it. -/
theorem isPrefix_of_not_mem {block front rest : Str} {c : Char}
    (h : c ∉ block) (hfront : block <+: front ++ c :: rest) :
    block <+: front := by
  rcases Nat.lt_or_ge front.length block.length with hlt | hge
  · obtain ⟨more, hmore⟩ := hfront
    have hget := congrArg (·[front.length]?) hmore
    simp only [getElem?_append_left hlt, getElem?_append_right
      (Nat.le_refl front.length), Nat.sub_self, getElem?_cons_zero] at hget
    exact absurd (mem_of_getElem? hget) h
  · exact prefix_of_prefix_length_le hfront (prefix_append _ _) hge

theorem terminator_eq_cons
    (h : terminator = [bel] ∨ terminator = stringTerminator) :
    ∃ c rest, terminator = c :: rest ∧ (c = bel ∨ c = esc) := by
  rcases h with rfl | rfl
  · exact ⟨bel, [], rfl, .inl rfl⟩
  · exact ⟨esc, ['\\'], rfl, .inr rfl⟩

theorem startsWithOwnCode_inner
    (hterminator : terminator = [bel] ∨ terminator = stringTerminator) :
    startsWithOwnCode (inner ++ terminator ++ after) =
      startsWithOwnCode inner := by
  obtain ⟨c, rest, rfl, hc⟩ := terminator_eq_cons hterminator
  rw [Bool.eq_iff_iff, startsWithOwnCode_iff, startsWithOwnCode_iff]
  constructor
  · rintro ⟨code, hcode, hfront⟩
    have hnot : c ∉ code := by
      rcases hc with rfl | rfl
      · exact (not_mem_ownCodes hcode).1
      · exact (not_mem_ownCodes hcode).2
    rw [append_assoc] at hfront
    exact ⟨code, hcode, isPrefix_of_not_mem hnot hfront⟩
  · rintro ⟨code, hcode, hfront⟩
    rw [append_assoc]
    exact ⟨code, hcode, hfront.trans (prefix_append _ _)⟩

theorem ownAtFront_eq_some
    (h : ownAtFront text = some (inner, terminator, after)) :
    ∃ payload, text = oscIntroducer ++ payload ∧
      startsWithOwnCode payload = true ∧
      firstTerminator payload = some (inner, terminator, after) := by
  unfold ownAtFront at h
  split at h
  · cases h
  · next payload hpayload =>
    split at h
    · next hcode =>
      exact ⟨payload, dropPrefix?_eq_some.mp hpayload, hcode, h⟩
    · cases h

theorem ownAtFront_oscIntroducer (payload : Str) :
    ownAtFront (oscIntroducer ++ payload) =
      if startsWithOwnCode payload then firstTerminator payload else none := by
  simp [ownAtFront, dropPrefix?_append]

theorem length_after_ownAtFront
    (h : ownAtFront text = some (inner, terminator, after)) :
    after.length < text.length := by
  obtain ⟨payload, rfl, -, hfirst⟩ := ownAtFront_eq_some h
  obtain ⟨rfl, -⟩ := firstTerminator_eq_some hfirst
  simp only [oscIntroducer, length_append, length_cons]
  omega

/-- The reference reading of a text. -/
def reference : Str → Reference
  | [] => {}
  | c :: cs =>
    match _hown : ownAtFront (c :: cs) with
    | some (inner, terminator, after) =>
      (reference after).remove inner terminator after
    | none => (reference cs).emit [c]
termination_by text => text.length
decreasing_by
  · exact length_after_ownAtFront _hown
  · simp

theorem reference_nil : reference [] = {} := by
  rw [reference]

theorem reference_of_own
    (h : ownAtFront text = some (inner, terminator, after)) :
    reference text = (reference after).remove inner terminator after := by
  obtain ⟨payload, rfl, -, -⟩ := ownAtFront_eq_some h
  change reference (esc :: ']' :: payload) = _
  rw [reference]
  split
  · next hown =>
    obtain ⟨rfl, rfl, rfl⟩ : _ = inner ∧ _ = terminator ∧ _ = after := by
      simpa using hown.symm.trans h
    rfl
  · next hown => exact absurd (hown.symm.trans h) (by simp)

theorem reference_of_plain {c : Char} {cs : Str}
    (h : ownAtFront (c :: cs) = none) :
    reference (c :: cs) = (reference cs).emit [c] := by
  rw [reference]
  split
  · next hown => exact absurd (hown.symm.trans h) (by simp)
  · rfl

@[simp] theorem emit_emit (front back : Str) (next : Reference) :
    (next.emit back).emit front = next.emit (front ++ back) := by
  simp [Reference.emit]

/-- A stretch in which no own sequence starts is emitted. -/
theorem reference_append {front back : Str}
    (h : ∀ start rest, front = start ++ rest → rest ≠ [] →
      ownAtFront (rest ++ back) = none) :
    reference (front ++ back) = (reference back).emit front := by
  induction front with
  | nil => simp [Reference.emit]
  | cons c cs ih =>
    have hhead : ownAtFront (c :: (cs ++ back)) = none :=
      h [] (c :: cs) rfl (cons_ne_nil _ _)
    rw [cons_append, reference_of_plain hhead, ih fun start rest hsplit => h
      (c :: start) rest (by simp [hsplit]), emit_emit]
    rfl

theorem firstTerminator_drop (h : firstTerminator text = none)
    (start rest : Str) (hsplit : text = start ++ rest) :
    firstTerminator rest = none := by
  rw [firstTerminator_eq_none] at h ⊢
  subst hsplit
  exact ⟨fun hmem => h.1 (mem_append_right _ hmem),
    fun hoccurs => h.2 (infix_append_of_infix_right hoccurs)⟩

theorem reference_of_unterminated (h : firstTerminator text = none) :
    reference text = { visible := text } := by
  have hplain : reference (text ++ []) = (reference []).emit text := by
    refine reference_append fun start rest hsplit hne => ?_
    rw [append_nil]
    cases hown : ownAtFront rest with
    | none => rfl
    | some parts =>
      obtain ⟨payload, rfl, -, hfirst⟩ := ownAtFront_eq_some hown
      rw [firstTerminator_drop h (start ++ oscIntroducer) payload
        (by simp [hsplit])] at hfirst
      cases hfirst
  simpa [reference_nil, Reference.emit] using hplain

theorem reference_before {before payload : Str}
    (hfirst : ¬ oscIntroducer <:+: before ++ oscIntroducer.dropLast) :
    reference (before ++ oscIntroducer ++ payload) =
      (reference (oscIntroducer ++ payload)).emit before := by
  rw [append_assoc]
  refine reference_append fun start rest hsplit hne => ?_
  cases hown : ownAtFront (rest ++ (oscIntroducer ++ payload)) with
  | none => rfl
  | some parts =>
    obtain ⟨payload', htext, -, -⟩ := ownAtFront_eq_some hown
    exfalso
    apply hfirst
    have hearly : oscIntroducer <+: rest ++ (oscIntroducer ++ payload) :=
      ⟨payload', htext.symm⟩
    have hlate : rest ++ oscIntroducer.dropLast <+:
        rest ++ (oscIntroducer ++ payload) :=
      (prefix_append_right_inj _).mpr
        ((List.dropLast_prefix _).trans (prefix_append _ _))
    have hlength : oscIntroducer.length ≤
        (rest ++ oscIntroducer.dropLast).length := by
      have hpos := length_pos_iff.mpr hne
      simp [oscIntroducer]
      omega
    have hoccurs := (prefix_of_prefix_length_le hearly hlate hlength).isInfix
    rw [hsplit, append_assoc]
    exact infix_append_of_infix_right hoccurs

end NiceTerm.Osc
