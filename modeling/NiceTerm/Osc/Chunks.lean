/-
Streams in chunks.  Splits that leave every introducer whole, and bring no BEL
behind an ST in one chunk with it, all read the stream alike.
-/
import NiceTerm.Osc.Exact

namespace NiceTerm.Osc

open List Option OscStripper RustStr Search

variable {decode : Str → Option (List UInt8)}

/-- Where chunks end, as the number of characters still to come. -/
def ends : List Str → List Nat
  | [] => []
  | _ :: rest => rest.flatten.length :: ends rest

/-- Along a text that is cut where so many characters are still to come, each
sequence up to its first terminator fits the buffer and its introducer is not
cut in two; and no BEL stands between an ST and the next cut. -/
inductive CutsCleanly (cuts : List Nat) : Str → Prop
  | plain {text : Str} (hfind : text.dropInfix? oscIntroducer = none) :
      CutsCleanly cuts text
  | unfinished {text before payload : Str}
      (hfind : text.dropInfix? oscIntroducer = some (before, payload))
      (hfirst : firstTerminator payload = none) : CutsCleanly cuts text
  | sequence {text before payload inner terminator after : Str}
      (hfind : text.dropInfix? oscIntroducer = some (before, payload))
      (hfirst : firstTerminator payload = some (inner, terminator, after))
      (hfits : len (oscIntroducer ++ inner ++ terminator) ≤ maxOscBuf)
      (hwhole : payload.length + 1 ∉ cuts)
      (hbel : terminator = stringTerminator →
        ∃ cut ∈ cuts, cut ≤ after.length ∧
          bel ∉ after.take (after.length - cut))
      (hrest : CutsCleanly cuts after) : CutsCleanly cuts text

def SplitsCleanly (chunks : List Str) : Prop :=
  CutsCleanly (ends chunks) chunks.flatten

def OscResult.observed (result : OscResult) : Observed :=
  ⟨result.visible, result.cwdPaths, result.acceptedCommands, result.ready⟩

def Observed.append (a b : Observed) : Observed where
  visible := a.visible ++ b.visible
  cwdPaths := a.cwdPaths ++ b.cwdPaths
  acceptedCommands := a.acceptedCommands ++ b.acceptedCommands
  ready := a.ready || b.ready

/-- Text that is only shown. -/
def plainly (text : Str) : Observed :=
  ⟨text, [], [], false⟩

/-- What a text gives when each sequence ends at its first terminator. -/
def reading (recognise : Str → Recognised) (text : Str) : Observed :=
  match _hfind : text.dropInfix? oscIntroducer with
  | none => plainly text
  | some (before, payload) =>
    match _hfirst : firstTerminator payload with
    | none => plainly text
    | some (inner, terminator, after) =>
      ((plainly before).append ((recognise inner).result
        (oscIntroducer ++ inner ++ terminator) false 0).observed).append
        (reading recognise after)
termination_by text.length
decreasing_by
  obtain ⟨rfl, -⟩ := firstTerminator_eq_some _hfirst
  obtain ⟨rfl, -⟩ :=
    (dropInfix?_eq_some oscIntroducer_ne_nil).mp _hfind
  simp [oscIntroducer]
  omega

@[simp] theorem plainly_append (text : Str) (more : Observed) :
    (plainly text).append more =
      { more with visible := text ++ more.visible } := by
  simp [plainly, Observed.append]

theorem Observed.append_assoc (a b c : Observed) :
    (a.append b).append c = a.append (b.append c) := by
  simp [Observed.append, Bool.or_assoc]

@[simp] theorem observed_shown (afterReady : Bool) (text : Str) :
    (shown afterReady text).observed = plainly text :=
  rfl

@[simp] theorem observed_append (a b : OscResult) :
    (a.append b).observed = a.observed.append b.observed :=
  rfl

/-- Only the text behind the ready marker depends on it. -/
theorem observed_result (recognised : Recognised) (sequence : Str)
    (afterReady : Bool) (remaining : Nat) :
    (recognised.result sequence afterReady remaining).observed =
      (recognised.result sequence false 0).observed := by
  cases recognised <;> rfl

section Reading

variable {recognise : Str → Recognised} {cuts : List Nat}
  {text before payload inner terminator after : Str}

theorem reading_plain (h : text.dropInfix? oscIntroducer = none) :
    reading recognise text = plainly text := by
  rw [reading]
  split
  · rfl
  · next hfind => simp [h] at hfind

theorem reading_unfinished
    (h : text.dropInfix? oscIntroducer = some (before, payload))
    (hfirst : firstTerminator payload = none) :
    reading recognise text = plainly text := by
  rw [reading]
  split
  · rfl
  · next before' payload' hfind =>
    obtain ⟨rfl, rfl⟩ : before = before' ∧ payload = payload' := by
      simpa [h] using hfind
    split
    · rfl
    · next hsome => simp [hfirst] at hsome

theorem reading_sequence
    (h : text.dropInfix? oscIntroducer = some (before, payload))
    (hfirst : firstTerminator payload = some (inner, terminator, after)) :
    reading recognise text = ((plainly before).append ((recognise inner).result
        (oscIntroducer ++ inner ++ terminator) false 0).observed).append
        (reading recognise after) := by
  rw [reading]
  split
  · next hfind => simp [h] at hfind
  · next before' payload' hfind =>
    obtain ⟨rfl, rfl⟩ : before = before' ∧ payload = payload' := by
      simpa [h] using hfind
    split
    · next hnone => simp [hfirst] at hnone
    · next inner' terminator' after' hsome =>
      obtain ⟨rfl, rfl, rfl⟩ :
          inner = inner' ∧ terminator = terminator' ∧ after = after' := by
        simpa [hfirst] using hsome
      rfl

/-- Without a terminator to come nothing is a sequence. -/
theorem cutsCleanly_of_unterminated
    (h : ∀ before payload, text.dropInfix? oscIntroducer =
      some (before, payload) → firstTerminator payload = none) :
    reading recognise text = plainly text ∧ CutsCleanly cuts text := by
  cases hfind : text.dropInfix? oscIntroducer with
  | none => exact ⟨reading_plain hfind, .plain hfind⟩
  | some parts =>
    have hnone := h parts.1 parts.2 hfind
    exact ⟨reading_unfinished hfind hnone, .unfinished hfind hnone⟩

end Reading

section Append

variable {text more inner terminator after : Str}

theorem firstTerminator_append (more : Str)
    (h : firstTerminator text = some (inner, terminator, after)) :
    firstTerminator (text ++ more) =
      some (inner, terminator, after ++ more) := by
  obtain ⟨rfl, hterminator, hbel, hst⟩ := firstTerminator_eq_some h
  rw [append_assoc]
  exact firstTerminator_intro hterminator hbel hst

/-- A terminator that is not in a text ends in what follows it. -/
theorem firstTerminator_later (h : firstTerminator text = none)
    (hsome : firstTerminator (text ++ more) =
      some (inner, terminator, after)) :
    after.length < more.length ∧ text <+: inner ++ terminator := by
  obtain ⟨hsplit, hterminator, -⟩ := firstTerminator_eq_some hsome
  have hlt : after.length < more.length := by
    by_contra hle
    have hin : inner ++ terminator <+: text :=
      prefix_of_prefix_length_le ⟨after, hsplit.symm⟩ (prefix_append _ _) (by
        have hlength := congrArg List.length hsplit
        simp only [length_append] at hlength ⊢
        omega)
    obtain ⟨rest, rfl⟩ := hin
    have hexists : ∃ inner' first later,
        firstTerminator (inner ++ terminator ++ rest) =
            some (inner', first, later) ∧ rest.length ≤ later.length :=
      firstTerminator_exists inner hterminator
    obtain ⟨_, _, _, hfound, -⟩ := hexists
    rw [h] at hfound
    cases hfound
  refine ⟨hlt, prefix_of_prefix_length_le (prefix_append _ _)
    ⟨after, hsplit.symm⟩ ?_⟩
  have hlength := congrArg List.length hsplit
  simp only [length_append] at hlength ⊢
  omega

theorem firstTerminator_suffix {back : Str} (h : firstTerminator text = none)
    (hsuffix : back <:+ text) : firstTerminator back = none := by
  obtain ⟨front, rfl⟩ := hsuffix
  exact firstTerminator_drop h front back rfl

/-- What is found in a text is found when it goes on. -/
theorem dropInfix?_append (more : Str) {before payload : Str}
    (h : text.dropInfix? oscIntroducer = some (before, payload)) :
    (text ++ more).dropInfix? oscIntroducer =
      some (before, payload ++ more) := by
  obtain ⟨rfl, hfirst⟩ := (dropInfix?_eq_some oscIntroducer_ne_nil).mp h
  exact (dropInfix?_eq_some oscIntroducer_ne_nil).mpr
    ⟨by simp only [append_assoc], hfirst⟩

/-- An introducer that is not in a text, and is not cut in two at its end,
stands in what follows it. -/
theorem dropInfix?_later {before payload : Str}
    (h : text.dropInfix? oscIntroducer = none)
    (hsome : (text ++ more).dropInfix? oscIntroducer = some (before, payload))
    (hwhole : payload.length + 1 ≠ more.length) :
    ∃ before', before = text ++ before' ∧
      more.dropInfix? oscIntroducer = some (before', payload) := by
  obtain ⟨hsplit, hfirst⟩ :=
    (dropInfix?_eq_some oscIntroducer_ne_nil).mp hsome
  have hlength := congrArg List.length hsplit
  simp only [length_append, oscIntroducer, length_cons, length_nil]
    at hlength
  have hle : text.length ≤ before.length := by
    by_contra hlt
    have hin : before ++ oscIntroducer <+: text :=
      prefix_of_prefix_length_le ⟨payload, hsplit.symm⟩ (prefix_append _ _)
        (by simp [oscIntroducer]; omega)
    rw [dropInfix?_eq_none] at h
    exact h (infix_append_right.trans hin.isInfix)
  obtain ⟨before', rfl⟩ : text <+: before :=
    prefix_of_prefix_length_le (prefix_append _ _)
      ⟨oscIntroducer ++ payload, by rw [hsplit, append_assoc]⟩ hle
  refine ⟨before', rfl, (dropInfix?_eq_some oscIntroducer_ne_nil).mpr ⟨?_, ?_⟩⟩
  · simpa only [append_assoc, append_cancel_left_eq] using hsplit
  · rw [append_assoc] at hfirst
    exact fun hoccurs => hfirst (infix_append_of_infix_right hoccurs)

/-- What follows a text without an introducer has no terminator to come when
the whole has none. -/
theorem unterminated_later {before payload before' payload' : Str}
    (hsome : (text ++ more).dropInfix? oscIntroducer = some (before, payload))
    (hfirst : firstTerminator payload = none)
    (hmore : more.dropInfix? oscIntroducer = some (before', payload')) :
    firstTerminator payload' = none := by
  obtain ⟨hsplit, hleast⟩ :=
    (dropInfix?_eq_some oscIntroducer_ne_nil).mp hsome
  obtain ⟨rfl, -⟩ := (dropInfix?_eq_some oscIntroducer_ne_nil).mp hmore
  have hlength := congrArg List.length hsplit
  have hjoin : text ++ before' ++ oscIntroducer ++ payload' =
      before ++ oscIntroducer ++ payload := by
    rw [← hsplit]
    simp only [append_assoc]
  have hle : payload'.length ≤ payload.length := by
    by_contra hlt
    apply hleast
    have hfront : before ++ oscIntroducer.dropLast <+:
        before ++ oscIntroducer ++ payload := by
      rw [append_assoc before]
      exact (prefix_append_right_inj _).mpr
        ((List.dropLast_prefix _).trans (prefix_append _ _))
    have hin := prefix_of_prefix_length_le ⟨payload', hjoin⟩ hfront (by
      simp only [length_append, oscIntroducer, length_cons, length_nil,
        dropLast_cons_cons, dropLast_singleton] at hlength ⊢
      omega)
    exact infix_append_right.trans hin.isInfix
  exact firstTerminator_suffix hfirst
    (suffix_of_suffix_length_le ⟨_, hjoin⟩ (suffix_append _ _) hle)

end Append

/-- A cut behind a whole text does not matter to it. -/
theorem CutsCleanly.drop_cut {cuts : List Nat} {cut : Nat} {text : Str}
    (h : CutsCleanly (cut :: cuts) text) (hle : text.length ≤ cut) :
    CutsCleanly cuts text := by
  induction h with
  | plain hfind => exact .plain hfind
  | unfinished hfind hfirst => exact .unfinished hfind hfirst
  | sequence hfind hfirst hfits hwhole hbel hrest ih =>
    have hpayload := Search.length_after_lt oscIntroducer_ne_nil hfind
    have hafter := congrArg List.length (firstTerminator_eq_some hfirst).1
    simp only [length_append] at hafter
    refine .sequence hfind hfirst hfits (not_mem_of_not_mem_cons hwhole)
      (fun hst => ?_) (ih (by omega))
    obtain ⟨other, hmem, hother, hclear⟩ := hbel hst
    rcases mem_cons.mp hmem with rfl | hmem
    · omega
    · exact ⟨other, hmem, hother, hclear⟩

section Push

variable {stripper : OscStripper} {cuts : List Nat} {buf later text : Str}

/-- What one pass over the buffer leaves to the chunks that follow. -/
structure Passes (recognise : Str → Recognised) (cuts : List Nat)
    (buf later : Str) (passed : OscResult × Str) : Prop where
  reading : passed.1.observed.append (reading recognise (passed.2 ++ later)) =
    reading recognise (buf ++ later)
  cuts : CutsCleanly cuts (passed.2 ++ later)
  held : Osc.reading recognise passed.2 = plainly passed.2

theorem reading_nil (recognise : Str → Recognised) :
    reading recognise [] = plainly [] :=
  reading_plain rfl

/-- A buffer without an introducer is shown whole. -/
theorem passes_plain {recognise : Str → Recognised} {afterReady : Bool}
    (h : CutsCleanly (later.length :: cuts) (buf ++ later))
    (hfind : buf.dropInfix? oscIntroducer = none) :
    Passes recognise cuts buf later (shown afterReady buf, []) := by
  suffices hlater : (plainly buf).append (reading recognise later) =
      reading recognise (buf ++ later) ∧ CutsCleanly cuts later from
    ⟨hlater.1, hlater.2, reading_nil recognise⟩
  cases h with
  | plain hwhole =>
    have hlater : later.dropInfix? oscIntroducer = none := by
      rw [dropInfix?_eq_none] at hwhole ⊢
      exact fun hoccurs => hwhole (infix_append_of_infix_right hoccurs)
    rw [reading_plain hwhole, reading_plain hlater, plainly_append]
    exact ⟨rfl, .plain hlater⟩
  | unfinished hwhole hfirst =>
    obtain ⟨hreading, hcuts⟩ :
        reading recognise later = plainly later ∧ CutsCleanly cuts later :=
      cutsCleanly_of_unterminated fun _ _ => unterminated_later hwhole hfirst
    rw [reading_unfinished hwhole hfirst, hreading, plainly_append]
    exact ⟨rfl, hcuts⟩
  | sequence hwhole hfirst hfits hcut hbel hrest =>
    obtain ⟨before', rfl, hlater⟩ := dropInfix?_later hfind hwhole
      (ne_of_not_mem_cons hcut)
    rw [reading_sequence hwhole hfirst, reading_sequence hlater hfirst]
    refine ⟨by simp [plainly, Observed.append], ?_⟩
    exact (CutsCleanly.sequence hlater hfirst hfits hcut hbel
      hrest).drop_cut (Nat.le_refl _)

/-- An open sequence that fits is held. -/
theorem passes_open {recognise : Str → Recognised} {afterReady : Bool}
    {before payload : Str}
    (h : CutsCleanly (later.length :: cuts) (buf ++ later))
    (hfind : buf.dropInfix? oscIntroducer = some (before, payload))
    (hnone : firstTerminator payload = none) :
    Passes recognise cuts buf later
      (if maxOscBuf < len (oscIntroducer ++ payload) then
        ((shown afterReady before).append
          { visible := oscIntroducer ++ payload }, [])
      else (shown afterReady before, oscIntroducer ++ payload)) := by
  have hfound := dropInfix?_append later hfind
  have hheld (more : Str) : (oscIntroducer ++ payload ++ more).dropInfix?
      oscIntroducer = some ([], payload ++ more) := by
    rw [append_assoc]
    exact dropInfix?_oscIntroducer_front _
  have hkept : reading recognise (oscIntroducer ++ payload) =
      plainly (oscIntroducer ++ payload) :=
    reading_unfinished (dropInfix?_oscIntroducer_front payload) hnone
  obtain ⟨rfl, -⟩ := (dropInfix?_eq_some oscIntroducer_ne_nil).mp hfind
  cases h with
  | plain hwhole => exact absurd (hfound.symm.trans hwhole) (some_ne_none _)
  | @unfinished _ front rest hwhole hfirst =>
    obtain ⟨rfl, rfl⟩ :=
      Prod.mk.inj (some.inj (hfound.symm.trans hwhole))
    split
    · obtain ⟨hreading, hcuts⟩ :
          reading recognise later = plainly later ∧ CutsCleanly cuts later :=
        cutsCleanly_of_unterminated fun front back hmore =>
          firstTerminator_suffix hfirst (by
          obtain ⟨rfl, -⟩ :=
            (dropInfix?_eq_some oscIntroducer_ne_nil).mp hmore
          exact ⟨payload ++ front ++ oscIntroducer, by simp⟩)
      refine ⟨?_, hcuts, reading_nil recognise⟩
      rw [reading_unfinished hwhole hfirst, nil_append, hreading]
      simp [plainly, Observed.append, OscResult.observed, OscResult.append,
        shown]
    · refine ⟨?_, .unfinished (hheld later) hfirst, hkept⟩
      rw [reading_unfinished hwhole hfirst,
        reading_unfinished (hheld later) hfirst]
      simp [plainly, Observed.append]
  | @sequence _ front rest inner terminator after hwhole hfirst hfits hcut hbel
      hrest =>
    obtain ⟨rfl, rfl⟩ :=
      Prod.mk.inj (some.inj (hfound.symm.trans hwhole))
    obtain ⟨hlt, hinside⟩ := firstTerminator_later hnone hfirst
    have hshort : ¬ maxOscBuf < len (oscIntroducer ++ payload) := by
      obtain ⟨more, hmore⟩ := hinside
      rw [append_assoc, ← hmore] at hfits
      simp only [len_append] at hfits ⊢
      omega
    rw [if_neg hshort]
    refine ⟨?_, ?_, hkept⟩
    · rw [reading_sequence hwhole hfirst,
        reading_sequence (hheld later) hfirst]
      simp [plainly, Observed.append]
    · refine .sequence (hheld later) hfirst hfits
        (not_mem_of_not_mem_cons hcut) (fun hst => ?_)
        (hrest.drop_cut hlt.le)
      obtain ⟨cut, hmem, hle, hclear⟩ := hbel hst
      rcases mem_cons.mp hmem with rfl | hmem
      · omega
      · exact ⟨cut, hmem, hle, hclear⟩

theorem findOscEnd_of_cutsCleanly {before payload inner terminator after : Str}
    (hends : ∀ cut ∈ cuts, cut ≤ later.length)
    (h : CutsCleanly (later.length :: cuts) (buf ++ later))
    (hfind : buf.dropInfix? oscIntroducer = some (before, payload))
    (hfirst : firstTerminator payload = some (inner, terminator, after)) :
    findOscEnd payload = some (inner, terminator, after) ∧
      CutsCleanly (later.length :: cuts) (after ++ later) := by
  have hfound := dropInfix?_append later hfind
  have hsome := firstTerminator_append later hfirst
  cases h with
  | plain hwhole => exact absurd (hfound.symm.trans hwhole) (some_ne_none _)
  | unfinished hwhole hnone =>
    obtain ⟨-, rfl⟩ := Prod.mk.inj (some.inj (hfound.symm.trans hwhole))
    exact absurd (hsome.symm.trans hnone) (some_ne_none _)
  | sequence hwhole hclosed hfits hcut hbel hrest =>
    obtain ⟨-, rfl⟩ := Prod.mk.inj (some.inj (hfound.symm.trans hwhole))
    obtain ⟨rfl, hparts⟩ :=
      Prod.mk.inj (some.inj (hsome.symm.trans hclosed))
    obtain ⟨rfl, rfl⟩ := Prod.mk.inj hparts
    refine ⟨findOscEnd_of_firstTerminator hfirst fun hst => ?_, hrest⟩
    obtain ⟨cut, hmem, hle, hclear⟩ := hbel hst
    have hlater : cut ≤ later.length := by
      rcases mem_cons.mp hmem with rfl | hmem
      · exact Nat.le_refl _
      · exact hends cut hmem
    rw [length_append, take_append, mem_append, not_or,
      take_of_length_le (by omega)] at hclear
    exact hclear.1

/-- A pass over the buffer reads it as the whole text is read. -/
theorem pushLoop_passes (stripper : OscStripper) (afterReady : Bool)
    (hends : ∀ cut ∈ cuts, cut ≤ later.length)
    (h : CutsCleanly (later.length :: cuts) (buf ++ later)) :
    Passes (stripper.recognise decode) cuts buf later
      (stripper.pushLoop decode afterReady buf) := by
  induction hlength : buf.length using Nat.strong_induction_on
    generalizing buf afterReady with
  | h length ih =>
    cases hfind : buf.dropInfix? oscIntroducer with
    | none =>
      rw [pushLoop_of_plain hfind]
      exact passes_plain h hfind
    | some parts =>
      obtain ⟨before, payload⟩ := parts
      cases hfirst : firstTerminator payload with
      | none =>
        rw [pushLoop_of_open hfind (findOscEnd_eq_none.mpr hfirst)]
        exact passes_open h hfind hfirst
      | some closed =>
        obtain ⟨inner, terminator, after⟩ := closed
        obtain ⟨hend, hrest⟩ :=
          findOscEnd_of_cutsCleanly hends h hfind hfirst
        have hafter := congrArg List.length (firstTerminator_eq_some hfirst).1
        have hpayload := Search.length_after_lt oscIntroducer_ne_nil hfind
        simp only [length_append] at hafter
        rw [pushLoop_of_closed hfind hend]
        obtain ⟨hreading, hcuts, hheld⟩ := ih after.length (by omega)
          (afterReady || stripper.recognise decode inner == .ready) hrest rfl
        refine ⟨?_, hcuts, hheld⟩
        rw [reading_sequence (dropInfix?_append later hfind)
          (firstTerminator_append later hfirst), ← hreading]
        simp only [observed_append, observed_shown, Observed.append_assoc]
        rw [observed_result]

end Push

theorem ends_le {chunks : List Str} {cut : Nat} (h : cut ∈ ends chunks) :
    cut ≤ chunks.flatten.length := by
  induction chunks with
  | nil => exact absurd h not_mem_nil
  | cons chunk rest ih =>
    rw [flatten_cons, length_append]
    rcases mem_cons.mp h with rfl | h
    · exact Nat.le_add_left _ _
    · exact (ih h).trans (Nat.le_add_left _ _)

/-- Chunks that cut their stream cleanly are read as the stream is read. -/
theorem pushAll_reading (decode : Str → Option (List UInt8))
    (chunks : List Str) (stripper : OscStripper)
    (h : CutsCleanly (ends chunks) (stripper.buf ++ chunks.flatten))
    (hheld : reading (stripper.recognise decode) stripper.buf =
      plainly stripper.buf) :
    (stripper.pushAll decode chunks).1.observed.append
        (plainly (stripper.pushAll decode chunks).2.buf) =
      reading (stripper.recognise decode)
        (stripper.buf ++ chunks.flatten) := by
  induction chunks generalizing stripper with
  | nil =>
    simp [OscStripper.pushAll, hheld, OscResult.observed, Observed.append,
      plainly]
  | cons chunk rest ih =>
    rw [flatten_cons, ← List.append_assoc] at h ⊢
    obtain ⟨hresult, hbuf⟩ := @push_eq_pushLoop decode stripper chunk
    obtain ⟨hreading, hcuts, hnext⟩ :=
      @pushLoop_passes decode (ends rest) (stripper.buf ++ chunk) rest.flatten
        stripper false (fun _ => ends_le) h
    rw [← hresult, ← hbuf] at hreading
    rw [← hbuf] at hcuts hnext
    have hrest := ih (stripper.push decode chunk).2 hcuts (by
      rwa [recognise_push])
    rw [recognise_push] at hrest
    simp only [OscStripper.pushAll, observed_append, Observed.append_assoc]
    rw [hrest, hreading]

theorem observe_reading {stripper : OscStripper} (hbuf : stripper.buf = [])
    {chunks : List Str} (h : SplitsCleanly chunks) :
    stripper.observe decode chunks =
      reading (stripper.recognise decode) chunks.flatten := by
  have hall := pushAll_reading decode chunks stripper
    (by rwa [hbuf]) (by rw [hbuf]; exact reading_nil _)
  rw [hbuf, nil_append] at hall
  rw [← hall]
  simp [OscStripper.observe, OscStripper.flush, OscResult.observed,
    Observed.append, plainly]

/-- Any two splits that cut the stream cleanly show and report the same; and
all splits do exactly when the stream holds no complete sequence of the
program's own. -/
theorem chunking_independent_iff (decode : Str → Option (List UInt8))
    (sessionId stream : Str) :
    (∀ left right : List Str, left.flatten = stream → right.flatten = stream →
        SplitsCleanly left → SplitsCleanly right →
        (sessionStripper sessionId).observe decode left =
          (sessionStripper sessionId).observe decode right) ∧
      ((∀ left right : List Str, left.flatten = stream →
          right.flatten = stream →
          (sessionStripper sessionId).observe decode left =
            (sessionStripper sessionId).observe decode right) ↔
        ¬ (sessionStripper sessionId).ContainsOwn decode stream) := by
  refine ⟨?_, splits_agree_iff decode sessionId stream⟩
  intro left right hleft hright hclean hclean'
  rw [observe_reading rfl hclean, observe_reading rfl hclean', hleft, hright]

def cwdReport : Str :=
  oscIntroducer ++ "7;file://h/p".toList ++ [bel]

/-- Whole, the report is removed and its path reported; cut between the two
characters of the introducer, it is shown. -/
theorem split_introducer_shown :
    let stripper := OscStripper.new (buildReadyMarker "session-1".toList)
    stripper.observe (fun _ => none) [cwdReport] =
        ⟨[], ["/p".toList], [], false⟩ ∧
      stripper.observe (fun _ => none) [cwdReport.take 1, cwdReport.drop 1] =
        ⟨cwdReport, [], [], false⟩ := by
  decide +kernel

/-- `$ `, a report ended by ST, `ls`, and a report ended by BEL. -/
def twoReports : Str :=
  "$ ".toList ++ oscIntroducer ++ "7;file://h/a".toList ++
    stringTerminator ++ "ls".toList ++ cwdReport

theorem twoReports_cutsCleanly {cuts : List Nat} (hfirst : 32 ∉ cuts)
    (hsecond : 14 ∉ cuts) (hcut : 17 ∈ cuts ∨ 11 ∈ cuts) :
    CutsCleanly cuts twoReports := by
  have hbefore : CutsCleanly cuts ("ls".toList ++ cwdReport) :=
    @CutsCleanly.sequence cuts _ "ls".toList (cwdReport.drop 2)
      "7;file://h/p".toList [bel] []
      (by decide) (by decide) (by decide) hsecond (fun h => by cases h)
      (.plain rfl)
  refine @CutsCleanly.sequence cuts _ "$ ".toList (twoReports.drop 4)
    "7;file://h/a".toList stringTerminator _ (by decide) (by decide)
    (by decide) hfirst (fun _ => ?_) hbefore
  rcases hcut with hcut | hcut
  · exact ⟨17, hcut, by decide, by decide⟩
  · exact ⟨11, hcut, by decide, by decide⟩

/-- Cut inside payloads and terminators, both reports are removed. -/
theorem twoReports_split :
    let stripper := sessionStripper "session-1".toList
    let left := [twoReports.take 9, (twoReports.take 17).drop 9,
      (twoReports.take 24).drop 17, twoReports.drop 24]
    let right := [twoReports.take 18, (twoReports.take 34).drop 18,
      twoReports.drop 34]
    SplitsCleanly left ∧ SplitsCleanly right ∧
      stripper.observe (fun _ => none) left =
        stripper.observe (fun _ => none) right ∧
      stripper.observe (fun _ => none) left =
        ⟨"$ ls".toList, ["/a".toList, "/p".toList], [], false⟩ := by
  intro stripper left right
  have hleft : SplitsCleanly left :=
    @twoReports_cutsCleanly (ends left) (by decide) (by decide) (by decide)
  have hright : SplitsCleanly right :=
    @twoReports_cutsCleanly (ends right) (by decide) (by decide) (by decide)
  exact ⟨hleft, hright,
    (chunking_independent_iff (fun _ => none) "session-1".toList
      twoReports).1 left right (by decide) (by decide) hleft hright,
    by decide +kernel⟩

end NiceTerm.Osc
